import Mathlib.Data.List.Basic

/-!
# Tokens

The tokens of a text are its longest runs of anything but a separator. A token that is being read is
the beginning of what is left: `tokens_append_cons` says when it ends.
-/

namespace Tqos

variable {α : Type*} [DecidableEq α] {sep : α} {cur l : List α}

/-- The runs between separators that are not empty. -/
def tokens (sep : α) (l : List α) : List (List α) := (l.splitOn sep).filter (· ≠ [])

@[simp] theorem tokens_nil (sep : α) : tokens sep [] = [] := rfl

/-- A separator in front is skipped. -/
@[simp] theorem tokens_sep_cons (sep : α) (l : List α) : tokens sep (sep :: l) = tokens sep l := by
  rw [tokens, ← List.nil_append (sep :: l), List.splitOn_append_cons_self_of_not_mem
    List.not_mem_nil]
  rfl

/-- The tokens have only elements of the text. -/
theorem mem_of_mem_tokens {x : α} {t : List α} (ht : t ∈ tokens sep l) (hx : x ∈ t) : x ∈ l := by
  have hpart : ∀ t ∈ l.splitOn sep, x ∈ t → x ∈ l := by
    clear ht hx t
    induction l with
    | nil =>
      intro t ht hx
      obtain rfl := List.mem_singleton.mp ht
      exact hx
    | cons c l ih =>
      intro t ht hx
      by_cases hc : c = sep
      · rw [hc, ← List.nil_append (sep :: l),
          List.splitOn_append_cons_self_of_not_mem List.not_mem_nil] at ht
        rcases List.mem_cons.mp ht with rfl | ht
        · exact absurd hx List.not_mem_nil
        · exact List.mem_cons_of_mem c (ih t ht hx)
      · obtain ⟨p, ps, hps⟩ := List.exists_cons_of_ne_nil (List.splitOn_ne_nil sep l)
        rw [List.splitOn_cons_eq_if_modifyHead, if_neg (by simpa using hc), hps] at ht
        rw [hps] at ih
        rcases List.mem_cons.mp ht with rfl | ht
        · rcases List.mem_cons.mp hx with rfl | hx
          · exact List.mem_cons_self
          · exact List.mem_cons_of_mem c (ih p List.mem_cons_self hx)
        · exact List.mem_cons_of_mem c (ih t (List.mem_cons_of_mem p ht) hx)
  exact hpart t (List.mem_of_mem_filter ht) hx

/-- A text without a separator is one token. -/
theorem tokens_of_notMem (hne : cur ≠ []) (h : sep ∉ cur) : tokens sep cur = [cur] := by
  rw [tokens, List.splitOn_eq_singleton h]
  exact List.filter_cons_of_pos (decide_eq_true hne)

/-- **A token ends** at the next separator. -/
theorem tokens_append_cons (hne : cur ≠ []) (h : sep ∉ cur) (l : List α) :
    tokens sep (cur ++ sep :: l) = cur :: tokens sep l := by
  rw [tokens, List.splitOn_append_cons_self_of_not_mem h]
  exact List.filter_cons_of_pos (decide_eq_true hne)

/-- The token that is being read is one. -/
theorem one_le_length_tokens (hne : cur ≠ []) (h : sep ∉ cur) (l : List α) :
    1 ≤ (tokens sep (cur ++ l)).length := by
  induction l generalizing cur with
  | nil =>
    rw [List.append_nil, tokens_of_notMem hne h]
    exact Nat.le_refl _
  | cons c l ih =>
    by_cases hc : c = sep
    · rw [hc, tokens_append_cons hne h, List.length_cons]
      exact Nat.succ_le_succ (Nat.zero_le _)
    · have hgrow : sep ∉ cur ++ [c] := by
        rw [List.mem_append, List.mem_singleton]
        exact not_or.mpr ⟨h, fun heq => hc heq.symm⟩
      have hlen := ih (List.append_ne_nil_of_left_ne_nil hne [c]) hgrow
      rwa [List.append_assoc] at hlen

end Tqos
