import KnishIO.Library.GraphQL
import Mathlib.Data.List.TakeWhile

open ByteString

namespace GraphQL

section Bytes

end Bytes

section Numbers

/-- A number ends before a brace. -/
def Before (s rest : ByteString) : Prop := ∃ used, s = used ++ rest ∧ 123 ∉ used

theorem Before.refl (s : ByteString) : Before s s := ⟨[], rfl, by simp⟩

theorem Before.trans {s t u : ByteString} (h : Before s t) (h' : Before t u) : Before s u := by
  obtain ⟨used, rfl, hused⟩ := h
  obtain ⟨more, rfl, hmore⟩ := h'
  exact ⟨used ++ more, (List.append_assoc _ _ _).symm, by simp [hused, hmore]⟩

theorem Before.cons {c : UInt8} {s rest : ByteString} (hc : c ≠ 123) (h : Before s rest) : Before (c :: s) rest := by
  obtain ⟨used, rfl, hused⟩ := h
  exact ⟨c :: used, rfl, by simp [hused, hc.symm]⟩

end Numbers

section Tokens

end Tokens

section Texts

variable {n : Nat} {text : ByteString} {ts : List Token}

end Texts

section Selections

end Selections

section Documents

variable {text : ByteString} {document : Document} {operation : Operation}

end Documents

end GraphQL
