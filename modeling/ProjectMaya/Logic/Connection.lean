/-! # Connections with implicit transactions

A write through a connection opens a transaction where none is open. The connection sees its own
writes at once (`view`), and the file has them from the commit on; a connection that is given up
leaves the file as it is. -/

namespace Logic

variable {σ : Type}

/-- `working` is what the open transaction has made of the database. -/
structure Connection (σ : Type) where
  committed : σ
  working : Option σ := none
  deriving DecidableEq, Repr

namespace Connection

def view (c : Connection σ) : σ := c.working.getD c.committed

/-- The implicit `BEGIN`. -/
def opened (c : Connection σ) : Connection σ := { c with working := some c.view }

def write (c : Connection σ) (f : σ → σ) : Connection σ := { c with working := some (f c.view) }

def commit (c : Connection σ) : Connection σ := ⟨c.view, none⟩

/-- What is not committed is lost. -/
def abandon (c : Connection σ) : Connection σ := ⟨c.committed, none⟩

/-- Neither the connection nor a reader of the file tells the two apart by `R`. -/
structure Alike (R : σ → σ → Prop) (c d : Connection σ) : Prop where
  view : R c.view d.view
  committed : R c.committed d.committed

namespace Alike

variable {R : σ → σ → Prop} {c d : Connection σ}

theorem opened (h : Alike R c d) : Alike R c.opened d.opened := ⟨h.view, h.committed⟩

theorem write {f : σ → σ} (hf : ∀ a b, R a b → R (f a) (f b)) (h : Alike R c d) :
    Alike R (c.write f) (d.write f) := ⟨hf _ _ h.view, h.committed⟩

theorem commit (h : Alike R c d) : Alike R c.commit d.commit := ⟨h.view, h.view⟩

theorem abandon (h : Alike R c d) : Alike R c.abandon d.abandon := ⟨h.committed, h.committed⟩

end Alike

end Connection

end Logic
