/-! # Dialogues

A party that asks a peer questions and goes on with its answers.  Nothing is said about the
peer: `Takes` are the transcripts with any peer at all. -/

namespace Logic

inductive Dialogue (Q A R : Type) where
  | done (r : R)
  | ask (q : Q) (k : A → Dialogue Q A R)

namespace Dialogue

variable {Q A R R' : Type}

/-- One dialogue after the other. -/
def andThen : Dialogue Q A R → (R → Dialogue Q A R') → Dialogue Q A R'
  | .done r, f => f r
  | .ask q k, f => .ask q fun a => (k a).andThen f

/-- The dialogue asks and is answered as the transcript says, and ends in the result. -/
inductive Takes : Dialogue Q A R → List (Q × A) → R → Prop
  | done (r : R) : Takes (.done r) [] r
  | ask {q : Q} {k : A → Dialogue Q A R} {a : A} {log : List (Q × A)} {r : R} :
      Takes (k a) log r → Takes (.ask q k) ((q, a) :: log) r

variable {d : Dialogue Q A R} {log : List (Q × A)} {r r' : R}

theorem takes_done : (done r : Dialogue Q A R).Takes log r' ↔ log = [] ∧ r' = r := by
  constructor
  · rintro ⟨⟩
    exact ⟨rfl, rfl⟩
  · rintro ⟨rfl, rfl⟩
    exact .done r'

theorem takes_ask {q : Q} {k : A → Dialogue Q A R} :
    (ask q k).Takes log r ↔ ∃ a rest, log = (q, a) :: rest ∧ (k a).Takes rest r := by
  constructor
  · intro h
    cases h with
    | ask h => exact ⟨_, _, rfl, h⟩
  · rintro ⟨a, rest, rfl, h⟩
    exact .ask h

theorem takes_andThen {f : R → Dialogue Q A R'} {r' : R'} :
    (d.andThen f).Takes log r' ↔
      ∃ first rest r, log = first ++ rest ∧ d.Takes first r ∧ (f r).Takes rest r' := by
  induction d generalizing log with
  | done r =>
    constructor
    · exact fun h => ⟨[], log, r, rfl, .done r, h⟩
    · rintro ⟨first, rest, s, rfl, hfirst, hrest⟩
      obtain ⟨rfl, rfl⟩ := takes_done.mp hfirst
      exact hrest
  | ask q k ih =>
    show (ask q fun a => (k a).andThen f).Takes log r' ↔ _
    rw [takes_ask]
    constructor
    · rintro ⟨a, more, rfl, h⟩
      obtain ⟨first, rest, r, rfl, hfirst, hrest⟩ := (ih a).mp h
      exact ⟨(q, a) :: first, rest, r, rfl, .ask hfirst, hrest⟩
    · rintro ⟨first, rest, r, rfl, hfirst, hrest⟩
      obtain ⟨a, more, rfl, hmore⟩ := takes_ask.mp hfirst
      exact ⟨a, more ++ rest, rfl, (ih a).mpr ⟨more, rest, r, rfl, hmore, hrest⟩⟩

end Dialogue

end Logic
