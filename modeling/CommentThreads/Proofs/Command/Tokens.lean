/-
CommentThreads.Proofs.Command.Tokens — typed words are the tokens of their line.

`Spells` says how a token can be typed: as it is, if it has neither white space nor
quotation marks in it, or with a part of it between marks. Words that are typed with
single spaces between them are cut into what they spell (`tokens_joinWith`), and
there is nothing to strip off such a line (`strip_joinWith`).
-/
import Mathlib.Data.List.Forall2
import CommentThreads.Command.Tokens
import CommentThreads.Proofs.Text.Blank
import CommentThreads.Text.Words

namespace CommentThreads.Command

open CommentThreads.Text

/-! ## Pieces of a token -/

/-- The token under way with more characters. -/
def Current.extend (current : Current) (piece : List Char) : Current :=
  some (piece.reverse ++ current.getD [])

/-- Characters that stand for themselves between marks. -/
theorem tokensFrom_quoted {value : List Char} (h : '"' ∉ value) (current : Current)
    (rest : List Char) :
    tokensFrom true current (value ++ '"' :: rest) =
      tokensFrom false (current.extend value) rest := by
  induction value generalizing current with
  | nil => simp [tokensFrom, Current.extend]
  | cons c value ih =>
    rw [List.mem_cons, not_or] at h
    rw [List.cons_append, tokensFrom, if_neg (Ne.symm h.1), Bool.not_true, Bool.and_false,
      if_neg Bool.false_ne_true, ih h.2]
    simp [Current.extend, Current.push]

/-- Characters that stand for themselves outside of marks. -/
def Plain (piece : List Char) : Prop := ∀ c ∈ piece, isBlank c = false ∧ c ≠ '"'

-- by name, as a search may find the instance that runs through every character there is
instance : DecidablePred Plain := fun piece =>
  List.decidableBAll (fun c => isBlank c = false ∧ c ≠ '"') piece

theorem tokensFrom_plain {piece : List Char} (h : Plain piece) (hne : piece ≠ [])
    (current : Current) (rest : List Char) :
    tokensFrom false current (piece ++ rest) = tokensFrom false (current.extend piece) rest := by
  induction piece generalizing current with
  | nil => exact absurd rfl hne
  | cons c piece ih =>
    obtain ⟨hblank, hmark⟩ := h c List.mem_cons_self
    rw [List.cons_append, tokensFrom, if_neg hmark, hblank, Bool.false_and,
      if_neg Bool.false_ne_true]
    cases piece with
    | nil => rfl
    | cons d piece =>
      rw [ih (fun e he => h e (List.mem_cons_of_mem c he)) (List.cons_ne_nil _ _)]
      simp [Current.extend, Current.push]

/-! ## Words -/

/-- How a token can be typed: as it is, or with its last part between marks. -/
inductive Spells : (typed token : String) → Prop
  | plain {word : String} (h : Plain word.toList) (hne : word ≠ "") : Spells word word
  | quoted {start value : String} (hstart : Plain start.toList) (hvalue : '"' ∉ value.toList) :
    Spells (start ++ "\"" ++ value ++ "\"") (start ++ value)

section Words

variable {typed token : String}

/-- A typed word makes its token, whatever follows. -/
theorem Spells.tokensFrom (h : Spells typed token) (rest : List Char) :
    tokensFrom false none (typed.toList ++ rest) =
      tokensFrom false (some token.toList.reverse) rest := by
  cases h with
  | plain h hne =>
    rw [tokensFrom_plain h (by simpa using hne)]
    simp [Current.extend]
  | @quoted start value hstart hvalue =>
    have hbegun :
        Command.tokensFrom false none (start.toList ++ '"' :: (value.toList ++ '"' :: rest)) =
        Command.tokensFrom true (some start.toList.reverse) (value.toList ++ '"' :: rest) := by
      cases hchars : start.toList with
      | nil => rfl
      | cons c piece =>
        rw [← hchars, tokensFrom_plain hstart (by simp [hchars])]
        simp [Command.tokensFrom, Current.extend]
    have hmark : ("\"" : String).toList = ['"'] := rfl
    simp only [String.toList_append, hmark, List.append_assoc, List.cons_append, List.nil_append]
    rw [hbegun, tokensFrom_quoted hvalue]
    simp [Current.extend]

theorem Spells.bare (h : Spells typed token) : typed.toList ≠ [] ∧ Bare typed.toList := by
  have hmark : isBlank '"' = false := by decide
  have hmarks : ("\"" : String).toList = ['"'] := rfl
  cases h with
  | plain h hne =>
    refine ⟨by simpa using hne, fun c hc => (h c ?_).1, fun c hc => (h c ?_).1⟩
    · exact List.mem_of_mem_head? hc
    · exact List.mem_of_mem_getLast? hc
  | @quoted start value hstart hvalue =>
    simp only [String.toList_append, hmarks]
    refine ⟨by simp, fun c hc => ?_, fun c hc => ?_⟩
    · cases hchars : start.toList with
      | nil =>
        rw [hchars] at hc
        cases hc
        exact hmark
      | cons d piece =>
        rw [hchars] at hc
        cases hc
        exact (hstart _ (by simp [hchars])).1
    · rw [List.getLast?_append] at hc
      cases hc
      exact hmark

end Words

/-! ## Lines -/

theorem toList_joinWith_cons (word : String) {rest : List String} (h : rest ≠ []) :
    (joinWith " " (word :: rest)).toList = word.toList ++ ' ' :: (joinWith " " rest).toList := by
  cases rest with
  | nil => exact absurd rfl h
  | cons next rest =>
    have hspace : (" " : String).toList = [' '] := rfl
    rw [joinWith, String.toList_append, String.toList_append, hspace, List.append_assoc]
    · rfl
    · intro hnil
      cases hnil

section Lines

variable {typed words : List String}

theorem tokens_joinWith (h : List.Forall₂ Spells typed words) :
    tokens (joinWith " " typed) = words := by
  rw [tokens]
  induction h with
  | nil => rfl
  | @cons word token typed words hword hrest ih =>
    cases typed with
    | nil =>
      cases hrest
      have hend := hword.tokensFrom []
      rw [List.append_nil] at hend
      rw [joinWith, hend]
      simp [tokensFrom, Current.finish]
    | cons next typed =>
      have hspace : isBlank ' ' = true := by decide
      rw [toList_joinWith_cons word (List.cons_ne_nil _ _), hword.tokensFrom]
      simp [tokensFrom, hspace, Current.finish, ih]

theorem strip_joinWith (h : List.Forall₂ Spells typed words) :
    strip (joinWith " " typed) = joinWith " " typed := by
  have hbare :
      Bare (joinWith " " typed).toList ∧ (typed ≠ [] → (joinWith " " typed).toList ≠ []) := by
    induction h with
    | nil => exact ⟨⟨by simp [joinWith], by simp [joinWith]⟩, fun hne => absurd rfl hne⟩
    | @cons word token typed words hword hrest ih =>
      obtain ⟨hne, hends⟩ := hword.bare
      cases typed with
      | nil => exact ⟨hends, fun _ => hne⟩
      | cons next typed =>
        obtain ⟨hlast, hmore⟩ := ih
        have hmore := hmore (List.cons_ne_nil _ _)
        rw [toList_joinWith_cons word (List.cons_ne_nil _ _)]
        refine ⟨⟨fun c hc => hends.first c ?_, fun c hc => hlast.last c ?_⟩, by simp⟩
        · rwa [List.head?_append_of_ne_nil _ hne] at hc
        · rwa [List.getLast?_append_of_ne_nil _ (List.cons_ne_nil _ _),
            List.getLast?_cons_of_ne_nil hmore] at hc
  rw [strip, trim_of_ends hbare.1, String.ofList_toList]

end Lines

end CommentThreads.Command
