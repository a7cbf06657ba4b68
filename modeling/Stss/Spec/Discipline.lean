import Stss.Spec.SqlCorrect
import Stss.Spec.Trace

/-!
# The discipline of the connection tasks

The proof outline that all results about runs of the server rest on. A connection
sees what the log says about it, and the account of the user whose name it holds in
`logged_users`. `Permitted` says which effects it may perform there; `Inv` is the
invariant of the whole server.

Two assumptions on runs are carried along, both about what may fail. `KeepsNames`:
nothing fails between taking a name and entering the session, and no task unwinds in
a session. `KeepsPayments`: nothing fails while a token is taken that is neither
recorded nor refunded.
Without them the outline still gives mutual exclusion and the accounting bounds; with
them names are always released and accounts are exact.
-/

namespace Stss.Spec

open ForStd Native

/-- `t` carries the signature that the server's key makes for its hash and timestamp. -/
def Signed (crypto : Crypto) (t : IssuedToken) : Prop :=
  crypto.sign (combinedHash crypto t.hash t.timestamp).bytes.toList = .ok t.sign.bytes

/-- The row of `history` that records `t`. -/
def IssuedToken.cells (t : IssuedToken) : HistoryCells := ⟨t.sign.bytes, t.timestamp.asBeBytes⟩

namespace Account

/-- The balance is an `i64` and not negative. -/
def InRange (a : Account) : Prop :=
  ∀ row, a.row = some row → 0 ≤ row.availableTokens ∧ row.availableTokens ≤ i64Max

/-- Only registered users have a history. -/
def Registered (a : Account) : Prop := a.row = none → a.history = []

/-- The rows of the history have the sizes that decode. -/
def Decodes (a : Account) : Prop :=
  ∀ r ∈ a.history, r.timestamp.length = 16 ∧ r.hash.length = rsaKeySizeInBytes

/-- What holds of an account at every moment, where `a₀` is the account at the start.

* `inRange`, `registered`, `decodes`: what was in order at the start still is.
* `worth`: no token comes from nowhere.
* `issued`: every issued token has a row of its own.
* `genuine`: issued tokens are signed and recorded. -/
structure Ok (a : Account) (crypto : Crypto) (a₀ : Account) : Prop where
  inRange : a₀.InRange → a.InRange
  registered : a₀.Registered → a.Registered
  decodes : a₀.Decodes → a.Decodes
  worth : a.worth ≤ a₀.worth + a.purchased
  issued : a.issued.length + a₀.history.length ≤ a.history.length
  genuine : ∀ t ∈ a.issued, Signed crypto t ∧ t.cells ∈ a.history

/-- No token is lost either. -/
def Exact (a a₀ : Account) : Prop := a.worth = a₀.worth + a.purchased

/-- The account of nobody. -/
def nobody : Account := ⟨none, [], 0, []⟩

end Account

/-- What a connection sees: the log about itself, and the account of the name it holds. -/
@[ext] structure Local where
  conn : Conn
  account : Account

/-- The account of the held name. -/
def accountHeld (held : Option String) (db : Database) (log : List ServerEvent) : Account :=
  match held with
  | some u => accountOf u db log
  | none => .nobody

/-- What the connection `c` sees. -/
def viewOf (c : ConnId) (w : World) (log : List ServerEvent) : Local where
  conn := connOf c log
  account := accountHeld (connOf c log).held w.db log

/-! ## Which effects a connection may perform -/

/-- The stored hash of `u` accepts the password `p`. -/
def Accepts (crypto : Crypto) (hash p : String) : Prop :=
  crypto.parseHash hash = .ok () ∧ crypto.verifyPassword p hash = true

/-- The records that `get_user_history` makes of a user's rows. -/
def recordsOf (rows : List HistoryCells) : Except UserHistoryError (List HistoryRecord) :=
  decodeHistory (((orderByTimestampDesc rows).take 100).map .ok)

/-- The responses a connection may give. In a session, a response with data carries
    the data of the session's user, who has not asked to log out; outside, there is no
    such response, and `NotLoggedIn` is the only answer to most requests. -/
def Answerable (crypto : Crypto) (m : Mode) (l : Local) (r : Response) : Prop :=
  match m with
  | .handshake _ => False
  | .guest _ =>
    (∀ n, r ≠ .tokenCount n) ∧ (∀ h sg ts, r ≠ .token h sg ts) ∧ (∀ rs, r ≠ .history rs) ∧
    ∃ request, l.conn.request = some request ∧
      ((∀ u p, request ≠ .login u p) → (∀ u p, request ≠ .signUp u p) → r = .notLoggedIn)
  | .session s =>
    l.conn.held = some s.username ∧
    match r with
    | .tokenCount n => (∃ p, l.conn.login = some (s.username, p)) ∧ n = asU64 l.account.balance
    | .token h sg ts => (∃ p, l.conn.login = some (s.username, p)) ∧
        l.conn.request = some (.signHash h) ∧ Signed crypto ⟨h, sg, ts⟩ ∧
        (⟨h, sg, ts⟩ : IssuedToken).cells ∈ l.account.history
    | .history rs => (∃ p, l.conn.login = some (s.username, p)) ∧
        recordsOf l.account.history = .ok rs
    | _ => True

/-- The effects that the code of mode `m` may perform where it sees `l`. -/
def Permitted (crypto : Crypto) (m : Mode) (l : Local) : Effect → Prop
  | .insertLogged u => l.conn.held = none ∧ (∃ address, m = .guest address) ∧
      ∃ p hash, l.conn.request = some (.login u p) ∧ l.conn.stored = some (u, hash) ∧
        Accepts crypto hash p
  | .removeLogged u => l.conn.held = some u ∧ ∃ s, m = .session s ∧ s.username = u
  | .fetch _ q => (∃ address u, m = .guest address ∧ q = .passwordHash u) ∨
      ∃ s, m = .session s ∧ q.username = s.username
  | .execute stmt => ∃ address u p salt hash, m = .guest address ∧
      l.conn.request = some (.signUp u p) ∧ crypto.hashPassword p salt = .ok hash ∧
      stmt = .insertUser u hash 0 address.ip
  -- every transaction has one statement, which is about the user of the session
  | .executeTx tx stmt => tx.writes = [] ∧ (∀ u hash n ip, stmt ≠ .insertUser u hash n ip) ∧
      ∃ s, m = .session s ∧ stmt.username = s.username
  | .commit tx => ∃ s p, m = .session s ∧ l.conn.held = some s.username ∧
      l.conn.login = some (s.username, p) ∧
      ∀ w ∈ tx.writes, w.username = s.username ∧ ∀ u row, w ≠ .insertUser u row
  | .nextOrCancelled => ∀ s, m = .session s → ∃ p, l.conn.login = some (s.username, p)
  -- signatures are made only for a token that was paid
  | .signWithTimestamp _ _ => l.conn.paid = true ∧ l.conn.held.isSome
  | .serialize r => Answerable crypto m l r
  | .send f => Answerable crypto m l f.message
  | _ => True

/-! ## The invariant -/

section

variable (st : ServerState) (allow : Server → ServerAction → Prop) (db₀ : Database)

/-- No step of a run makes a connection keep a name it has no session for. -/
def KeepsNames : Prop :=
  ∀ s x, allow s x → (∀ c, x ≠ .abort c) ∧
    ∀ s', (server st).act s x = some s' → ∀ c, (connOf c s'.log).leaked = false

/-- No step of a run fails while a token is taken. -/
def KeepsPayments : Prop :=
  ∀ s x, allow s x → (∀ c, x ≠ .abort c) ∧
    ∀ s', (server st).act s x = some s' → ∀ c, (connOf c s'.log).lost = false

/-- The account of `u` at the start. -/
def startOf (u : String) : Account := accountOf u db₀ []

/-- A connection is running. -/
def Running (s : Server) (c : ConnId) : Prop := ∃ m p, s.task c = .running m p

/-- `u` has no request in progress. -/
def Idle (s : Server) (u : String) : Prop :=
  ∀ c, Running s c → (connOf c s.log).held = some u → (connOf c s.log).busy = false

/-- The invariant of the server.

* `held_logged`, `held_inj`: a held name is in `logged_users`, and only one connection
  holds it.
* `logged_held`: a name in `logged_users` is held by a running connection.
* `held_row`: the users whose names are held are registered.
* `stored`, `logins`: a hash that was read is still the user's, and the password of an
  accepted login is still accepted.
* `absent`: connections that did not start yet have left no trace.
* `accounts`, `exact`: the accounting. -/
structure Inv (s : Server) : Prop where
  held_logged : ∀ {c u}, (connOf c s.log).held = some u → u ∈ s.world.loggedUsers
  held_inj : ∀ {c c' u}, (connOf c s.log).held = some u → (connOf c' s.log).held = some u → c = c'
  logged_held : KeepsNames st allow → ∀ u ∈ s.world.loggedUsers,
    ∃ c, Running s c ∧ (connOf c s.log).held = some u
  held_row : ∀ {c u}, (connOf c s.log).held = some u → ∃ row, s.world.db.users.lookup u = some row
  stored : ∀ {c u hash}, (connOf c s.log).stored = some (u, hash) →
    ∃ row, s.world.db.users.lookup u = some row ∧ row.passwordHash = hash
  logins : ∀ {c u p}, (connOf c s.log).login = some (u, p) →
    ∃ row, s.world.db.users.lookup u = some row ∧ Accepts st.crypto row.passwordHash p
  absent : ∀ {c}, s.task c = .absent → connOf c s.log = {}
  accounts : ∀ u, (accountOf u s.world.db s.log).Ok st.crypto (startOf db₀ u)
  exact : KeepsPayments st allow → ∀ u, Idle s u →
    (accountOf u s.world.db s.log).Exact (startOf db₀ u)

/-! ## The outline -/

/-- What holds of a connection that holds the name `u`. -/
structure Logged (u : String) (l : Local) : Prop where
  held : l.conn.held = some u
  row : ∃ row, l.account.row = some row
  ok : l.account.Ok st.crypto (startOf db₀ u)

/-- What holds wherever a connection is suspended. -/
def Good (l : Local) : Prop :=
  ∀ u, l.conn.held = some u → Logged st db₀ u l ∧
    (KeepsPayments st allow → l.conn.busy = false → l.account.Exact (startOf db₀ u))

/-- When a connection may be suspended at an effect. `K` is a further property that its
    view is to have there. In a session it holds the name of the user, which it releases
    only when the account is settled; the one thing it may do after that is to cancel. -/
structure Allowed (K : Local → Prop) (m : Mode) (l : Local) (e : Effect) : Prop where
  permitted : Permitted st.crypto m l e
  session : ∀ s, m = .session s → e ≠ .cancel → l.conn.held = some s.username
  good : Good st allow db₀ l
  keeps : K l
  released : ∀ u, e = .removeLogged u → KeepsPayments st allow → l.account.Exact (startOf db₀ u)

/-- An answer moves the view as it does in some configuration that satisfies the
    invariant. -/
def Answered (m : Mode) (l : Local) (e : Effect) (a : e.Answer) (l' : Local) : Prop :=
  ∃ c s o k w, Inv st allow db₀ s ∧ s.task c = .running m (.op e k) ∧
    allow s (.step c o) ∧ viewOf c s.world s.log = l ∧
    exec st.crypto c e o s.world = some (some a, w) ∧
    viewOf c w (⟨c, m, e, some a⟩ :: s.log) = l'

/-- The rules of the outline, with the property `K` of suspended connections. -/
def rules (K : Local → Prop) (m : Mode) : Prog.Rules Effect Effect.Answer Local where
  ok := Allowed st allow db₀ K m
  next := Answered st allow db₀ m

/-- What holds at the start of an iteration. -/
def pre : Mode → Local → Prop
  | .handshake _, l => l.conn.held = none
  | .guest _, l => l.conn.held = none
  | .session s, l => Logged st db₀ s.username l ∧ (∃ p, l.conn.login = some (s.username, p)) ∧
      (KeepsPayments st allow → l.account.Exact (startOf db₀ s.username))

/-- The errors that the code takes for impossible. -/
def InternalError.Impossible : InternalError → Prop
  | .userShouldExistButWasNotFound => True
  | .integrityViolation _ => True
  | _ => False

/-- The result of a task is not an impossible error. -/
def TaskResult.Possible (r : TaskResult) : Prop :=
  ∀ u e, r = .handler (.error (.domain u e)) → ¬ InternalError.Impossible e

/-- A database that the server can be started on. -/
def Valid (db : Database) : Prop :=
  ∀ u, (startOf db u).InRange ∧ (startOf db u).Registered ∧ (startOf db u).Decodes

/-- What holds when a task returns. -/
def post (r : TaskResult) (l : Local) : Prop :=
  (Valid db₀ → TaskResult.Possible r) ∧ (KeepsNames st allow → l.conn.held = none) ∧
  ∀ u, l.conn.held = some u → Logged st db₀ u l ∧
    (KeepsPayments st allow → l.account.Exact (startOf db₀ u))

/-- The proof outline of the connection tasks. -/
def outline : Outline (server st) Local where
  view := viewOf
  rules := rules st allow db₀ fun _ => True
  pre := pre st allow db₀
  post := post st allow db₀

end

end Stss.Spec
