import Dbms.Core.Table

/-! Databases by name, and the current one. -/

namespace Dbms.Core

/-- A database; `id` tells it from others that have had its name. -/
structure Database where
  name : Text
  id : Nat
  tables : Finmap fun _ : Text => Table

namespace Database

def new (name : Text) (id : Nat) : Database := ⟨name, id, ∅⟩

def createTable (db : Database) (tname : Text) (cols : List ColumnDef) : Except Text Database :=
  if tname ∈ db.tables then .error ("table already exists: ".toList ++ tname)
  else .ok { db with tables := db.tables.insert tname (.new tname cols) }

def dropTable (db : Database) (tname : Text) : Except Text Database :=
  if tname ∈ db.tables then .ok { db with tables := db.tables.erase tname }
  else .error ("table not found: ".toList ++ tname)

def getTable (db : Database) (tname : Text) : Option Table := db.tables.lookup tname

/-- The table changed through its pointer. -/
def setTable (db : Database) (tname : Text) (t : Table) : Database :=
  { db with tables := db.tables.insert tname t }

end Database

/-- `created` counts the databases made so far. -/
structure Catalog where
  dbs : Finmap fun _ : Text => Database
  current_ : Text
  created : Nat

namespace Catalog

def empty : Catalog := ⟨∅, [], 0⟩

def createDatabase (cat : Catalog) (name : Text) : Except Text Catalog :=
  if name ∈ cat.dbs then .error ("database already exists: ".toList ++ name)
  else .ok { cat with
    dbs := cat.dbs.insert name (.new name cat.created), created := cat.created + 1 }

def dropDatabase (cat : Catalog) (name : Text) : Except Text Catalog :=
  if name ∈ cat.dbs then
    .ok { cat with
      dbs := cat.dbs.erase name, current_ := if cat.current_ = name then [] else cat.current_ }
  else .error ("database not found: ".toList ++ name)

def getDatabase (cat : Catalog) (name : Text) : Option Database := cat.dbs.lookup name

def setCurrent (cat : Catalog) (name : Text) : Except Text Catalog :=
  if name ∈ cat.dbs then .ok { cat with current_ := name }
  else .error ("database not found: ".toList ++ name)

def current (cat : Catalog) : Option Database :=
  if cat.current_ = [] then none else cat.getDatabase cat.current_

def setDatabase (cat : Catalog) (name : Text) (db : Database) : Catalog :=
  { cat with dbs := cat.dbs.insert name db }

/-- A pointer to the database `id`, taken under the name `key`, points to a database. -/
def Alive (cat : Catalog) (key : Text) (id : Nat) : Prop :=
  (cat.getDatabase key).map Database.id = some id

instance (cat : Catalog) (key : Text) (id : Nat) : Decidable (cat.Alive key id) :=
  inferInstanceAs (Decidable (_ = _))

end Catalog
end Dbms.Core
