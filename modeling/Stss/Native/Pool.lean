import Stss.Native.DataBaseBuilder

/-!
# The connection pool of the database

`unchecked_build` of `server/src/database.rs` configures a pool of `sqlx`. What is
modelled of `sqlx` is what its documentation says about the limits of a connection: the
pool closes a connection that exceeds its idle timeout or its maximum lifetime, unless that
limit is `None`, and opens connections up to the maximum when they are needed. An
in-memory database of SQLite lives as long as some connection to it is open. Times are in
seconds.
-/

namespace Stss.Native

/-- `SqlitePoolOptions`, with the defaults of `new()`. -/
structure PoolOptions where
  maxConnections : Nat := 10
  minConnections : Nat := 0
  maxLifetime : Option Nat := some (30 * 60)
  idleTimeout : Option Nat := some (10 * 60)
deriving DecidableEq, Repr

/-- The pool options of `unchecked_build`. -/
def poolOptions : DataBaseLocation → PoolOptions
  | .disk _ => {}
  | .memory => { maxConnections := 1, idleTimeout := none }

/-- An open connection: how long ago it was opened, and how long ago it was used. -/
structure PooledConnection where
  age : Nat := 0
  idle : Nat := 0
deriving DecidableEq, Repr

/-- Whether the pool may close a connection. -/
def PoolOptions.exceededBy (options : PoolOptions) (conn : PooledConnection) : Bool :=
  options.maxLifetime.any (· < conn.age) || options.idleTimeout.any (· < conn.idle)

/-- A pool of connections to an in-memory database. `contents` is `none` when the database
    has no tables. -/
structure Pool (σ : Type) where
  connections : List PooledConnection
  contents : Option σ
deriving DecidableEq

/-- What happens to a pool.

* `operation op`: an operation uses a connection, from its first statement to its last.
* `connect`: a further connection is opened while the others are in use.
* `elapse n`: `n` seconds pass.
* `recycle i`: the pool closes a connection. -/
inductive PoolStep (Op : Type) where
  | operation (op : Op)
  | connect
  | elapse (seconds : Nat)
  | recycle (i : Nat)
deriving DecidableEq

variable {σ Op : Type}

/-- A connection is taken for an operation and put back: one is opened if there is none. -/
def useConnection : List PooledConnection → List PooledConnection
  | [] => [{}]
  | conn :: conns => { conn with idle := 0 } :: conns

/-- The connections after one was closed: new ones replace it up to the minimum. -/
def PoolOptions.replenish (options : PoolOptions) (conns : List PooledConnection) :
    List PooledConnection :=
  conns ++ List.replicate (options.minConnections - conns.length) ({} : PooledConnection)

/-- One step of a pool; `none` when it is not possible. `apply` is what an operation does to
    the tables. -/
def Pool.step (options : PoolOptions) (apply : Op → σ → Option σ) (pool : Pool σ) :
    PoolStep Op → Option (Pool σ)
  | .operation op =>
    match pool.contents with
    | some tables => (apply op tables).map fun tables' =>
      ⟨useConnection pool.connections, some tables'⟩
    -- there are no tables: its statements fail
    | none => some ⟨useConnection pool.connections, none⟩
  | .connect =>
    if pool.connections.length < options.maxConnections then
      some { pool with connections := pool.connections ++ [{}] }
    else none
  | .elapse n =>
    some { pool with connections := pool.connections.map fun conn => ⟨conn.age + n, conn.idle + n⟩ }
  | .recycle i =>
    match pool.connections[i]? with
    | some conn =>
      if options.exceededBy conn then
        let conns := pool.connections.eraseIdx i
        -- the database is gone with its last connection, whatever is opened afterwards
        some ⟨options.replenish conns, if conns = [] then none else pool.contents⟩
      else none
    | none => none

/-- Several steps of a pool. -/
def Pool.run (options : PoolOptions) (apply : Op → σ → Option σ) (pool : Pool σ) :
    List (PoolStep Op) → Option (Pool σ)
  | [] => some pool
  | x :: xs => (pool.step options apply x).bind fun pool' => Pool.run options apply pool' xs

/-- The pool after `build(DataBaseLocation::Memory)`: `connect_with` has opened a connection
    and `initialize_db` has created the tables. -/
def Pool.built : Pool Database := ⟨[{}], some .initial⟩

end Stss.Native
