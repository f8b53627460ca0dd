import Mathlib.Data.List.Basic

/-!
# Cuttlefish.Calls

Requests of which only the last one counts: a new request aborts the one
before it, and the answer to an aborted request is dropped.

A history of such requests keeps what each asked for and was answered,
newest first.  `LastOnly` is its invariant; it holds as well of requests that
are only sent once the others are answered.
-/

namespace Cuttlefish

/-- A request: what it asks for, whether it was aborted, and its answer. -/
structure Call (α β : Type) where
  query : α
  aborted : Bool := false
  reply : Option β := none
  deriving DecidableEq, Repr

variable {α β : Type}

/-- Still to be answered. -/
def Call.Outstanding (c : Call α β) : Prop := c.aborted = false ∧ c.reply.isNone

instance : DecidablePred (Call.Outstanding (α := α) (β := β)) := fun _ =>
  inferInstanceAs (Decidable (_ ∧ _))

def abortLast : List (Call α β) → List (Call α β)
  | [] => []
  | c :: cs => { c with aborted := true } :: cs

/-- A new request, in place of the last one. -/
def send (query : α) (cs : List (Call α β)) : List (Call α β) := { query } :: abortLast cs

/-- The answer to the request at `k`. -/
def answer (k : Nat) (reply : β) (cs : List (Call α β)) : List (Call α β) :=
  cs.modify k fun c => { c with reply := some reply }

/-- A new request, beside those there are. -/
def ask (query : α) (cs : List (Call α β)) : List (Call α β) := { query } :: cs

/-- Only the last request can be outstanding, and it has not been aborted. -/
structure LastOnly (cs : List (Call α β)) : Prop where
  last : ∀ c ∈ cs.head?, c.aborted = false
  earlier : ∀ c ∈ cs.tail, ¬ c.Outstanding

theorem lastOnly_nil : LastOnly ([] : List (Call α β)) := by
  constructor <;> simp

theorem LastOnly.send {cs : List (Call α β)} (h : LastOnly cs) (query : α) :
    LastOnly (send query cs) := by
  constructor
  · simp [Cuttlefish.send]
  · cases cs with
    | nil => simp [Cuttlefish.send, abortLast]
    | cons c cs =>
        have hearlier := h.earlier
        simp_all [Cuttlefish.send, abortLast, Call.Outstanding]

theorem LastOnly.ask {cs : List (Call α β)} (h : ∀ c ∈ cs, ¬ c.Outstanding) (query : α) :
    LastOnly (ask query cs) := by
  constructor
  · simp [Cuttlefish.ask]
  · simpa [Cuttlefish.ask] using h

/-- An outstanding request is the last one. -/
theorem LastOnly.eq_zero {cs : List (Call α β)} (h : LastOnly cs) {k : Nat} {c : Call α β}
    (hc : cs[k]? = some c) (hout : c.Outstanding) : k = 0 := by
  cases k with
  | zero => rfl
  | succ k =>
      rw [← List.getElem?_tail] at hc
      exact absurd hout (h.earlier c (List.mem_of_getElem? hc))

/-- Once the last request is answered, none is outstanding. -/
theorem LastOnly.settled {cs : List (Call α β)} (h : LastOnly cs)
    (hlast : ∀ c ∈ cs.head?, ¬ c.Outstanding) : ∀ c ∈ cs, ¬ c.Outstanding := by
  cases cs with
  | nil => simp
  | cons c cs =>
      intro c' hc'
      obtain rfl | hc' := List.mem_cons.mp hc'
      · exact hlast c' rfl
      · exact h.earlier c' hc'

theorem LastOnly.answer {cs : List (Call α β)} (h : LastOnly cs) {k : Nat} {c : Call α β}
    (hc : cs[k]? = some c) (hout : c.Outstanding) (reply : β) : LastOnly (answer k reply cs) := by
  obtain rfl := h.eq_zero hc hout
  cases cs with
  | nil => exact h
  | cons c cs =>
      constructor
      · simpa [Cuttlefish.answer] using h.last
      · simpa [Cuttlefish.answer] using h.earlier

/-- An answer to an outstanding request is one to the first in the history. -/
theorem LastOnly.exists_answer {cs : List (Call α β)} (h : LastOnly cs) {k : Nat} {c : Call α β}
    (hc : cs[k]? = some c) (hout : c.Outstanding) :
    ∃ cs', cs = c :: cs' ∧
      ∀ reply, Cuttlefish.answer k reply cs = { c with reply := some reply } :: cs' := by
  obtain rfl := h.eq_zero hc hout
  cases cs with
  | nil => simp at hc
  | cons first cs =>
      obtain rfl : first = c := by simpa using hc
      exact ⟨cs, rfl, fun reply => rfl⟩

/-- Once an outstanding request is answered, none is outstanding. -/
theorem LastOnly.settled_answer {cs : List (Call α β)} (h : LastOnly cs) {k : Nat} {c : Call α β}
    (hc : cs[k]? = some c) (hout : c.Outstanding) (reply : β) :
    ∀ c' ∈ Cuttlefish.answer k reply cs, ¬ c'.Outstanding := by
  obtain ⟨cs', -, hanswer⟩ := h.exists_answer hc hout
  apply (h.answer hc hout reply).settled
  simp [hanswer, Call.Outstanding]

/-! ## members -/

section Members

variable {cs : List (Call α β)} {c : Call α β} {k : Nat} {query : α} {reply : β}

/-- A new request changes no query and no answer. -/
theorem mem_send (h : c ∈ send query cs) :
    c = { query } ∨ ∃ c' ∈ cs, c.query = c'.query ∧ c.reply = c'.reply := by
  cases cs with
  | nil => simpa [send, abortLast] using h
  | cons c' cs =>
      simp only [send, abortLast, List.mem_cons] at h
      obtain h | rfl | h := h
      · exact Or.inl h
      · exact Or.inr ⟨c', List.mem_cons_self, rfl, rfl⟩
      · exact Or.inr ⟨c, List.mem_cons_of_mem _ h, rfl, rfl⟩

theorem mem_answer (h : c ∈ answer k reply cs) :
    c ∈ cs ∨ ∃ c', cs[k]? = some c' ∧ c = { c' with reply := some reply } := by
  obtain ⟨i, hi⟩ := List.mem_iff_getElem?.mp h
  rw [answer, List.getElem?_modify] at hi
  obtain ⟨c', hc', rfl⟩ := Option.map_eq_some_iff.mp hi
  by_cases hk : k = i
  · cases hk
    exact Or.inr ⟨c', hc', by simp⟩
  · exact Or.inl (by simpa [hk] using List.mem_of_getElem? hc')

theorem mem_answer_self (h : cs[k]? = some c) :
    { c with reply := some reply } ∈ answer k reply cs := by
  refine List.mem_iff_getElem?.mpr ⟨k, ?_⟩
  simp [answer, h]

theorem head?_answer_zero (h : cs[0]? = some c) (reply : β) :
    (answer 0 reply cs).head? = some { c with reply := some reply } := by
  rw [List.head?_eq_getElem?]
  simp [answer, h]

end Members

end Cuttlefish
