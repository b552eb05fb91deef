import TruthTables.Proofs.Subformulas

/-! # Labels are read in one way only -/
namespace TruthTables

def Connective.sign : Connective → Char
  | and => '∧'
  | or => '∨'
  | xor => '⊕'
  | implies => '→'
  | iff => '≡'
  | join => ','

theorem Connective.glyph_eq (c : Connective) : c.glyph = String.singleton c.sign := by
  cases c <;> rfl

theorem Connective.sign_injective {c d : Connective} (h : c.sign = d.sign) : c = d := by
  revert h
  cases c <;> cases d <;> decide

namespace Formula

theorem toList_label_not (φ : Formula) : φ.not.label.toList = '¬' :: φ.label.toList := by
  rw [label, String.toList_append]
  rfl

theorem toList_label_binary (c : Connective) (φ ψ : Formula) :
    (binary c φ ψ).label.toList =
      '(' :: (φ.label.toList ++ ' ' :: c.sign :: ' ' :: (ψ.label.toList ++ [')'])) := by
  rw [label, Connective.glyph_eq]
  simp only [String.toList_append, String.toList_singleton]
  simp

/-- The text after a label, if there is any, starts with a sign that no name contains. -/
def EndsLabel (r : List Char) : Prop := ∀ c ∈ r.head?, c = ' ' ∨ c = ')'

theorem endsLabel_nil : EndsLabel [] := by simp [EndsLabel]

theorem endsLabel_blank (r : List Char) : EndsLabel (' ' :: r) := by simp [EndsLabel]

theorem endsLabel_closing (r : List Char) : EndsLabel (')' :: r) := by simp [EndsLabel]

private theorem name_append_inj {a b r s : List Char} (ha : ' ' ∉ a ∧ ')' ∉ a) (hb : ' ' ∉ b ∧ ')' ∉ b)
    (hr : EndsLabel r) (hs : EndsLabel s) (h : a ++ r = b ++ s) : a = b ∧ r = s := by
  induction a generalizing b with
  | nil =>
    cases b with
    | nil => exact ⟨rfl, h⟩
    | cons d b =>
      have hd := hr d (by simp [show r = d :: (b ++ s) from h])
      simp only [List.mem_cons, not_or] at hb
      rcases hd with rfl | rfl
      · exact absurd rfl hb.1.1
      · exact absurd rfl hb.2.1
  | cons c a ih =>
    simp only [List.mem_cons, not_or] at ha
    cases b with
    | nil =>
      have hc := hs c (by simp [show s = c :: (a ++ r) from h.symm])
      rcases hc with rfl | rfl
      · exact absurd rfl ha.1.1
      · exact absurd rfl ha.2.1
    | cons d b =>
      simp only [List.mem_cons, not_or] at hb
      simp only [List.cons_append, List.cons.injEq] at h
      obtain ⟨rfl, h⟩ := h
      obtain ⟨rfl, hrs⟩ := ih ⟨ha.1.2, ha.2.2⟩ ⟨hb.1.2, hb.2.2⟩ h
      exact ⟨rfl, hrs⟩

/-- No name goes on as a negation or a bracketed label does. -/
private theorem name_append_ne {a r s : List Char} {c : Char} (ha : c ∉ a) (hr : EndsLabel r)
    (hc : c ≠ ' ' ∧ c ≠ ')') : a ++ r ≠ c :: s := by
  intro h
  cases a with
  | nil =>
    rcases hr c (by simp [show r = c :: s from h]) with hc' | hc'
    · exact hc.1 hc'
    · exact hc.2 hc'
  | cons d a =>
    obtain ⟨rfl, -⟩ := List.cons.inj h
    exact ha (List.mem_cons_self ..)

/-- A label determines the formula and the place where the text after it starts. -/
theorem label_append_inj {φ ψ : Formula} (hφ : φ.Plain) (hψ : ψ.Plain) {r s : List Char}
    (hr : EndsLabel r) (hs : EndsLabel s) (h : φ.label.toList ++ r = ψ.label.toList ++ s) :
    φ = ψ ∧ r = s := by
  induction φ generalizing ψ r s with
  | symbol name =>
    obtain ⟨hb, ho, hc, hn⟩ := plain_symbol.1 hφ
    cases ψ with
    | symbol name' =>
      obtain ⟨hb', -, hc', -⟩ := plain_symbol.1 hψ
      obtain ⟨he, hrs⟩ := name_append_inj ⟨hb, hc⟩ ⟨hb', hc'⟩ hr hs h
      exact ⟨congrArg symbol (String.toList_inj.1 he), hrs⟩
    | not ψ =>
      rw [toList_label_not] at h
      exact absurd h (name_append_ne hn hr (by decide))
    | binary d ψ ψ' =>
      rw [toList_label_binary] at h
      exact absurd h (name_append_ne ho hr (by decide))
  | not φ ih =>
    rw [toList_label_not] at h
    cases ψ with
    | symbol name' =>
      exact absurd h.symm (name_append_ne (plain_symbol.1 hψ).2.2.2 hs (by decide))
    | not ψ =>
      rw [toList_label_not] at h
      obtain ⟨rfl, hrs⟩ := ih (plain_not.1 hφ) (plain_not.1 hψ) hr hs (List.cons.inj h).2
      exact ⟨rfl, hrs⟩
    | binary d ψ ψ' =>
      rw [toList_label_binary] at h
      exact absurd (List.cons.inj h).1 (by decide)
  | binary c φ φ' ih ih' =>
    rw [toList_label_binary] at h
    cases ψ with
    | symbol name' =>
      exact absurd h.symm (name_append_ne (plain_symbol.1 hψ).2.1 hs (by decide))
    | not ψ =>
      rw [toList_label_not] at h
      exact absurd (List.cons.inj h).1 (by decide)
    | binary d ψ ψ' =>
      rw [toList_label_binary] at h
      obtain ⟨hφ, hφ'⟩ := plain_binary.1 hφ
      obtain ⟨hψ, hψ'⟩ := plain_binary.1 hψ
      simp only [List.cons_append, List.append_assoc, List.nil_append, List.cons.injEq, true_and] at h
      obtain ⟨rfl, hmid⟩ := ih hφ hψ (endsLabel_blank _) (endsLabel_blank _) h
      simp only [List.cons.injEq, true_and] at hmid
      obtain ⟨hcd, hmid⟩ := hmid
      obtain ⟨rfl, hend⟩ := ih' hφ' hψ' (endsLabel_closing _) (endsLabel_closing _) hmid
      rw [Connective.sign_injective hcd]
      exact ⟨rfl, (List.cons.inj hend).2⟩

theorem label_injective {φ ψ : Formula} (hφ : φ.Plain) (hψ : ψ.Plain) (h : φ.label = ψ.label) :
    φ = ψ :=
  (label_append_inj hφ hψ endsLabel_nil endsLabel_nil (congrArg (·.toList ++ []) h)).1

end Formula

end TruthTables
