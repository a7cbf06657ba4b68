import Stss.Native.Server

/-!
# What the log tells about a connection and about an account

The theorems about whole runs speak of events: the last request of a connection, the
login it made, the purchases a user committed. All of them are read off the log of
performed effects; none is extra state of the server.
-/

namespace Stss.Spec

open ForStd Native

/-! ## Connections -/

/-- What the log says about one connection.

* `held`: the name it inserted into `logged_users` and has not removed yet.
* `login`: user and password of its last accepted login, until it asks to log out.
* `request`: the last request it received.
* `stored`: the last password hash it read, and of which user.
* `busy`: its last request has not been answered yet.
* `paid`: a token was taken for its last request, and neither recorded nor refunded yet.
* `lost`: something failed while a token was taken for its last request.
* `leaked`: something failed between taking a name and entering the session, or the
  task unwound in a session. -/
structure Conn where
  held : Option String := none
  login : Option (String × String) := none
  request : Option Request := none
  stored : Option (String × String) := none
  busy : Bool := false
  paid : Bool := false
  lost : Bool := false
  leaked : Bool := false

/-- Whether the outside made an effect fail: a statement, a clock that reads a time
    before the epoch, serializing or sending, or a panic (no answer). Signing errors do
    not count, the code undoes the payment for them. -/
def failed : (e : Effect) → Option e.Answer → Bool
  | _, none => true
  | .fetch _ _, some r => !r.isOk
  | .execute _, some r => !r.isOk
  | .begin, some r => !r.isOk
  | .executeTx _ _, some r => !r.isOk
  | .commit _, some r => !r.isOk
  | .timeNow, some t => t.secs < 0
  | .serialize _, some r => !r.isOk
  | .send _, some r => !r.isOk
  | _, some _ => false

/-- The connection received the request `r`. -/
def Conn.received (k : Conn) (m : Mode) (r : Request) : Conn :=
  { k with
    request := some r
    busy := true
    paid := false
    lost := false
    login :=
      match m, r with
      | .session _, .logOut => none
      | _, _ => k.login }

/-- The connection inserted `u` into `logged_users`. -/
def Conn.acquired (k : Conn) (u : String) : Conn :=
  { k with
    held := some u
    login :=
      match k.request with
      | some (.login _ p) => some (u, p)
      | _ => k.login }

/-- Whether a failure ends a connection without the cleanup of the held name, which
    `conn_handler_core` does when `session_handler` returns. -/
def skipsCleanup : Mode → Bool → Bool
  | .session _, unwinds => unwinds
  | _, _ => true

@[simp] theorem skipsCleanup_session (s : Session) (b : Bool) :
    skipsCleanup (.session s) b = b := rfl

@[simp] theorem skipsCleanup_guest (address : SocketAddr) (b : Bool) :
    skipsCleanup (.guest address) b = true := rfl

@[simp] theorem skipsCleanup_true (m : Mode) : skipsCleanup m true = true := by cases m <;> rfl

/-- An effect failed, as far as a payment or a held name depends on it. -/
def Conn.fails (k : Conn) (m : Mode) (unwinds : Bool) : Conn :=
  { k with
    lost := k.lost || k.paid
    leaked := k.leaked || (k.held.isSome && skipsCleanup m unwinds) }

/-- If the last request asks for a signature, its first transaction takes a token and
    the second records the signature or gives the token back. -/
def Conn.committed (k : Conn) : Conn :=
  { k with paid := !k.paid && k.request matches some (.signHash _) }

/-- The connection has its response to the last request. -/
def Conn.answered (k : Conn) : Conn := { k with busy := false }

/-- The connection removed its name from `logged_users`. -/
def Conn.released (k : Conn) : Conn := { k with held := none, busy := false }

/-- The progress of a connection with one more effect. -/
def Conn.step (k : Conn) (m : Mode) (e : Effect) (a : Option e.Answer) : Conn :=
  if failed e a then k.fails m a.isNone
  else
    match e with
    | .nextOrCancelled =>
      match a with
      | some (.next (some (.ok (.encodes r)))) => k.received m r
      | _ => k
    | .fetch .pool (.passwordHash u) =>
      match a with
      | some (.ok (some h)) => { k with stored := some (u, h) }
      | _ => k
    | .insertLogged u => if a = some true then k.acquired u else k
    | .removeLogged _ => k.released
    | .commit _ => k.committed
    | .serialize _ => k.answered
    | _ => k

/-- What the log says about the connection `c`. -/
def connOf (c : ConnId) : List ServerEvent → Conn
  | [] => {}
  | ev :: log =>
    if ev.tid = c then (connOf c log).step ev.mode ev.effect ev.answer else connOf c log

/-! ## Accounts -/

/-- A `Response::Token` that was produced. -/
structure IssuedToken where
  hash : Sha256Hash
  sign : RsaSignature
  timestamp : Timestamp
deriving DecidableEq

/-- The rows of a user, and what the log says about the user's purchases and tokens.

* `row`: the user's row of `users`.
* `history`: the user's rows of `history`.
* `purchased`: the sum of the amounts of the committed `PurchaseTokens`.
* `issued`: the tokens produced in answer to `SignHash`. -/
structure Account where
  row : Option UserRow
  history : List HistoryCells
  purchased : Nat
  issued : List IssuedToken

/-- The amount that the last request asks to purchase. -/
def Conn.purchase (k : Conn) : Nat :=
  match k.request with
  | some (.purchaseTokens n) => n.toNat
  | _ => 0

/-- The amount of the purchase an event commits for `u`, where `k` is what the log
    said before about the connection of the event. -/
def purchaseIn (u : String) (k : Conn) : ServerEvent → Nat
  | ⟨_, .session s, .commit _, some (.ok _)⟩ => if s.username = u then k.purchase else 0
  | _ => 0

/-- The sum of the committed purchases of `u`. -/
def purchasedBy (u : String) : List ServerEvent → Nat
  | [] => 0
  | ev :: log => purchasedBy u log + purchaseIn u (connOf ev.tid log) ev

/-- The token an event produces for `u`. -/
def tokenIn (u : String) (ev : ServerEvent) : Option IssuedToken :=
  match ev.mode, ev.effect with
  | .session s, .serialize (.token hash sign timestamp) =>
    if s.username = u then some ⟨hash, sign, timestamp⟩ else none
  | _, _ => none

/-- The tokens produced for `u`, newest first. -/
def issuedTo (u : String) (log : List ServerEvent) : List IssuedToken :=
  log.filterMap (tokenIn u)

/-- The account of `u`. -/
def accountOf (u : String) (db : Database) (log : List ServerEvent) : Account where
  row := db.users.lookup u
  history := db.historyOf u
  purchased := purchasedBy u log
  issued := issuedTo u log

/-- The stored balance of `u`; an unregistered user has none. -/
def balanceOf (db : Database) (u : String) : Int :=
  ((db.users.lookup u).map (·.availableTokens)).getD 0

namespace Account

/-- The stored balance. -/
def balance (a : Account) : Int := (a.row.map (·.availableTokens)).getD 0

/-- Tokens in hand plus tokens turned into signatures. -/
def worth (a : Account) : Int := a.balance + a.history.length

/-- The balance is set to `n`. -/
def setTokens (a : Account) (n : Int) : Account :=
  { a with row := a.row.map fun r => { r with availableTokens := n } }

/-- A purchase of `n` tokens is committed. -/
def bought (a : Account) (n : Nat) : Account := { a with purchased := a.purchased + n }

/-- A row is added to the history. -/
def record (a : Account) (cells : HistoryCells) : Account :=
  { a with history := cells :: a.history }

/-- A response is produced. -/
def issue (a : Account) : Response → Account
  | .token hash sign timestamp => { a with issued := ⟨hash, sign, timestamp⟩ :: a.issued }
  | _ => a

end Account

end Stss.Spec
