import Stss.ForStd.Except
import Stss.ForStd.Prog
import Stss.ForStd.Tasks
import Stss.ForStd.BigEndian
import Stss.ForStd.Ledger
import Stss.ForStd.List
import Stss.ForStd.Monitor
import Stss.ForStd.Codec
import Stss.ForStd.Lockstep
import Stss.ForStd.UnixPath
import Stss.ForStd.FileTree
import Stss.ForStd.Read
import Stss.ForStd.Purge
import Stss.ForStd.Interleave
import Stss.Native.Protocol
import Stss.Native.Sql
import Stss.Native.Effects
import Stss.Native.ServerDataBase
import Stss.Native.DataBaseBuilder
import Stss.Native.Pool
import Stss.Native.ConnectionHandler
import Stss.Native.Server
import Stss.Native.TimeOracle
import Stss.Native.Process
import Stss.Native.Wire
import Stss.Native.Rekey
import Stss.Native.Authority
import Stss.Native.Cli
import Stss.Native.SafeRead
import Stss.Native.Config
import Stss.Native.Programs
import Stss.Native.Terraform
import Stss.Spec.SqlCorrect
import Stss.Spec.Trace
import Stss.Spec.Discipline
import Stss.Spec.Accounts
import Stss.Spec.Steps
import Stss.Spec.Invariant
import Stss.Spec.Answers
import Stss.Spec.ServerDataBaseCorrect
import Stss.Spec.SessionCorrect
import Stss.Spec.ConnectionHandlerCorrect
import Stss.Spec.LoginLocks
import Stss.Spec.Requests
import Stss.Spec.SignHash
import Stss.Spec.Tokens
import Stss.Spec.Reopen
import Stss.Spec.Authorization
import Stss.Spec.Integrity
import Stss.Spec.IssuedTokens
import Stss.Spec.Shutdown
import Stss.Spec.TimeOracleCorrect
import Stss.Spec.Binding
import Stss.Spec.Operations
import Stss.Spec.History
import Stss.Spec.Turns
import Stss.Spec.WireCorrect
import Stss.Spec.Registration
import Stss.Spec.Enumeration
import Stss.Spec.Signers
import Stss.Spec.MemoryPool
import Stss.Spec.RekeyCorrect
import Stss.Spec.AuthorityCorrect
import Stss.Spec.CliCorrect
import Stss.Spec.SessionAgreement
import Stss.Spec.Artefacts
import Stss.Spec.Validation
import Stss.Spec.SafeReadCorrect
import Stss.Spec.Startup
import Stss.Spec.FileSystemNames
import Stss.Spec.Generation
import Stss.Spec.Handlers
import Stss.Spec.Isolation
import Stss.Spec.Chronology
import Stss.Spec.Service
import Stss.Spec.ProcessCorrect
import Stss.Spec.Deployment
import Stss.Spec.Interop
import Stss.Spec.Receipts
import Stss.Spec.WindDown
