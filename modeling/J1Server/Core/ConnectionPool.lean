import Mathlib.Data.List.Nodup

/-! # ConnectionPool

Connections that are lent and given back. A connection is named by its address. -/

namespace Core

abbrev Connection := Nat

structure ConnectionPool where
  pool : List Connection
  borrowed : List Connection
  deriving DecidableEq

namespace ConnectionPool

/-- When no connection is free, one that nobody holds is replaced by a new one. `none` is
`ConnectionUnavailable`, and `created` what the factory makes. -/
def borrow (p : ConnectionPool) (held : Connection → Bool) (created : Option Connection) :
    Option Connection × ConnectionPool :=
  match p.pool with
  | conn :: pool => (some conn, ⟨pool, conn :: p.borrowed⟩)
  | [] =>
    match p.borrowed.find? fun conn => !held conn, created with
    | some lost, some conn => (some conn, ⟨[], conn :: p.borrowed.erase lost⟩)
    | _, _ => (none, p)

def unborrow (p : ConnectionPool) (conn : Connection) : ConnectionPool :=
  if conn ∈ p.borrowed then ⟨p.pool ++ [conn], p.borrowed.erase conn⟩ else p

end ConnectionPool

end Core
