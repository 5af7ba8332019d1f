import Dbms.Core.Relation
import Dbms.Core.Multimap
import Dbms.Sql.Parser
import Dbms.Sql.Where
import Dbms.Core.Journal
import Dbms.Core.Catalog
import Dbms.Auth.Rbac
import Dbms.Auth.Jwt
import Dbms.Exec.Every
import Dbms.Exec.Escalation
import Dbms.Exec.Returns
import Dbms.Sql.WholeText
import Dbms.Sql.Derivation
import Dbms.Sql.Meaning
import Dbms.Exec.Condition
import Dbms.Exec.Scan
import Dbms.Exec.RowOrder
import Dbms.Exec.UpdateScan
import Dbms.Exec.WhereErrors
import Dbms.Exec.Atomic
import Dbms.Sql.Tokens
import Dbms.Client.Script
import Dbms.Exec.Selected
import Dbms.Core.Interning
import Dbms.Auth.SignVerify
import Dbms.Lib.Window
import Dbms.Server.Telemetry
import Dbms.Core.Calendar
import Dbms.Core.Timestamp
import Dbms.Sql.Spelled
import Dbms.Exec.Integers
import Dbms.Exec.Decoded
import Dbms.Exec.Replayed
import Dbms.Exec.Rights
import Dbms.Exec.Login
import Dbms.Exec.Sound
import Dbms.Exec.Frame
import Dbms.Server.Polls
import Dbms.Server.Books
import Dbms.Exec.Reverted
import Dbms.Server.Balance
import Dbms.Server.Nodes
import Dbms.Server.Relayed
