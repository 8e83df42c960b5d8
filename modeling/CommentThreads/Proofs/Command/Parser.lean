/-
CommentThreads.Proofs.Command.Parser — what lines ask for.

What a line can ask for is told once, by `askable_of_ofLine?`: a command that takes a
hash behind a flag, for one, is given one (`named_of_ofLine?`). Words that are typed
with single spaces between them ask for what they spell (`ofLine?_joinWith`): a commit
with the values behind its flags (`ofTokens?_commit`), an edit (`ofTokens?_rebase`) or
a removal (`ofTokens?_reset`).
-/
import CommentThreads.Command.Parser
import CommentThreads.Proofs.Command.Tokens

namespace CommentThreads

namespace Command

open CommentThreads.Text

/-! ## What a line can ask for -/

/-- The commands that a line can ask for. A hash behind a flag is not empty, a value that
is to be configured is stripped and not empty, and a draft is read off some words. -/
inductive Askable : Command → Prop
  | help : Askable .help
  | log (oneline : Bool) : Askable (.log oneline)
  | commit (words : List String) : Askable (.commit (addFlags .empty words))
  | inspect (hash : String) : Askable (.inspect hash)
  | rebase {hash : String} (h : hash ≠ "") : Askable (.rebase hash)
  | reset {hash : String} (h : hash ≠ "") : Askable (.reset hash)
  | showConfig {key : String} (hkey : key ∈ configKeys) : Askable (.config key none)
  | setConfig {key value : String} (hkey : key ∈ configKeys) (hvalue : strip value ≠ "") :
    Askable (.config key (some (strip value)))
  | reflog : Askable .reflog
  | mistaken (mistake : Mistake) : Askable (.mistaken mistake)

theorem askable_withHashAfter {command : String → Command}
    (h : ∀ hash, hash ≠ "" → Askable (command hash))
    (flag : String) (words : List String) (withoutFlag withoutHash : Mistake) :
    Askable (withHashAfter flag words command withoutFlag withoutHash) := by
  unfold withHashAfter
  split
  · exact .mistaken _
  · split
    · exact .mistaken _
    · next hash hne => exact h _ hne

theorem askable_configOf (words : List String) : Askable (configOf words) := by
  unfold configOf
  split
  · exact .mistaken _
  · split
    · next hkey => exact .showConfig (List.contains_iff_mem.mp hkey)
    · exact .mistaken _
  · split
    · next hkey =>
      have hkey := List.contains_iff_mem.mp hkey
      unfold nonEmpty?
      split
      · exact .showConfig hkey
      · next hvalue => exact .setConfig hkey hvalue
    · exact .mistaken _

theorem askable_subcommand (name : String) (words : List String) :
    Askable (subcommand name words) := by
  unfold subcommand
  split
  · exact .log _
  · exact .commit words
  · split
    · exact .mistaken _
    · exact .inspect _
  · exact askable_withHashAfter (fun _ h => .rebase h) _ _ _ _
  · exact askable_withHashAfter (fun _ h => .reset h) _ _ _ _
  · exact askable_configOf words
  · exact .reflog
  · exact .mistaken _

theorem askable_of_ofLine? {line : String} {command : Command}
    (h : ofLine? line = some command) : Askable command := by
  rw [ofLine?] at h
  unfold ofTokens? at h
  split at h
  · cases h
  · cases h
    exact .help
  · cases h
    exact .mistaken _
  · cases h
    exact .help
  · cases h
    exact askable_subcommand _ _
  · cases h
    exact .mistaken _

/-- A command that begins an edit or a removal names a comment. -/
def Named : Command → Prop
  | .rebase hash | .reset hash => hash ≠ ""
  | _ => True

theorem named_of_ofLine? {line : String} {command : Command} (h : ofLine? line = some command) :
    command.Named := by
  cases askable_of_ofLine? h with
  | rebase hne => exact hne
  | reset hne => exact hne
  | _ => trivial

/-- A value that is to be configured has a key that can be, and is not blank. -/
def Configurable (key : String) (value : Option String) : Prop :=
  key ∈ configKeys ∧ ∀ name, value = some name → isBlankText name = false

theorem configurable_of_ofLine? {line key : String} {value : Option String}
    (h : ofLine? line = some (.config key value)) : Configurable key value := by
  cases askable_of_ofLine? h with
  | showConfig hkey => exact ⟨hkey, nofun⟩
  | @setConfig _ given hkey hvalue =>
    refine ⟨hkey, ?_⟩
    rintro _ ⟨⟩
    rw [isBlankText_strip, ← strip_ne_empty_iff]
    exact hvalue

/-! ## Typed words -/

theorem ofLine?_joinWith {typed words : List String} (h : List.Forall₂ Spells typed words) :
    ofLine? (joinWith " " typed) = ofTokens? words := by
  rw [ofLine?, strip_joinWith h, tokens_joinWith h]

/-- A flag with its value, if there is one. -/
def flagged (flag : String) (value : Option String) : List String :=
  (value.map (flag ++ ·)).toList

/-- How a flag with its value can be typed, if there is one. -/
def Flags (flag : String) (typed value : Option String) : Prop :=
  List.Forall₂ Spells typed.toList (flagged flag value)

/-- What is left of characters behind their beginning. -/
theorem afterStart?_eq_some_iff {start s rest : List Char} :
    afterStart? start s = some rest ↔ s = start ++ rest := by
  induction start generalizing s with
  | nil => simp [afterStart?]
  | cons c start ih =>
    cases s with
    | nil => simp [afterStart?]
    | cons x s =>
      by_cases h : c = x
      · simp [afterStart?, h, ih]
      · simp [afterStart?, h, Ne.symm h]

theorem following?_append (start value : String) :
    following? start (start ++ value) = some value := by
  have hrest : afterStart? start.toList (start ++ value).toList = some value.toList :=
    afterStart?_eq_some_iff.mpr String.toList_append
  rw [following?, hrest, Option.map_some, String.ofList_toList]

theorem addFlags_cons {word : String} (h : word ≠ "-m") (draft : Draft) (rest : List String) :
    addFlags draft (word :: rest) = addFlags (addFlag draft word) rest := by
  cases rest with
  | nil => rfl
  | cons next rest => rw [addFlags, if_neg h]

/-- What is said behind a flag is looked at where the flag is no other. -/
theorem addFlag_author (draft : Draft) (value : String) :
    addFlag draft ("--author=" ++ value) = { draft with author := nonEmpty? value } := by
  rw [addFlag, following?_append]

theorem addFlag_password (draft : Draft) (value : String) :
    addFlag draft ("--password=" ++ value) = { draft with password := nonEmpty? value } := by
  have hauthor : following? "--author=" ("--password=" ++ value) = none := by
    simp [following?, afterStart?]
  rw [addFlag, hauthor, following?_append]

theorem addFlag_fixup (draft : Draft) (value : String) :
    addFlag draft ("--fixup=" ++ value) = { draft with parent := nonEmpty? value } := by
  have hauthor : following? "--author=" ("--fixup=" ++ value) = none := by
    simp [following?, afterStart?]
  have hpassword : following? "--password=" ("--fixup=" ++ value) = none := by
    simp [following?, afterStart?]
  rw [addFlag, hauthor, hpassword, following?_append]

theorem flag_ne {flag : String} {more : List Char} (h : flag.toList = '-' :: '-' :: more)
    (value : String) : flag ++ value ≠ "-m" := by
  intro heq
  have hchars := congrArg String.toList heq
  simp [h] at hchars

theorem addFlags_flagged {flag : String} {more : List Char}
    (hflag : flag.toList = '-' :: '-' :: more)
    (value : Option String) (draft : Draft) (rest : List String) :
    addFlags draft (flagged flag value ++ rest) =
      addFlags ((flagged flag value).foldl addFlag draft) rest := by
  cases value with
  | none => rfl
  | some value => exact addFlags_cons (flag_ne hflag value) draft rest

/-- A commit with the flags in this order, and a message if one is given. -/
theorem ofTokens?_commit (parent author password message : Option String) :
    ofTokens? ("git" :: "commit" :: (flagged "--fixup=" parent ++ (flagged "--author=" author ++
        (flagged "--password=" password ++ (message.map fun m => ["-m", m]).getD [])))) =
      some (.commit ⟨author.bind nonEmpty?, password.bind nonEmpty?, message,
        parent.bind nonEmpty?⟩) := by
  have hflags : addFlags .empty (flagged "--fixup=" parent ++ (flagged "--author=" author ++
      (flagged "--password=" password ++ (message.map fun m => ["-m", m]).getD []))) =
      ⟨author.bind nonEmpty?, password.bind nonEmpty?, message, parent.bind nonEmpty?⟩ := by
    rw [addFlags_flagged rfl, addFlags_flagged rfl, addFlags_flagged rfl]
    cases parent <;> cases author <;> cases password <;> cases message <;>
      simp [flagged, addFlag_fixup, addFlag_author, addFlag_password, addFlags, Draft.empty]
  rw [← hflags]
  rfl

theorem ofTokens?_rebase {hash : String} (h : hash ≠ "") :
    ofTokens? ["git", "rebase", "-i", hash] = some (.rebase hash) := by
  simp [ofTokens?, subcommand, withHashAfter, wordAfter?, h]

theorem ofTokens?_reset {hash : String} (h : hash ≠ "") :
    ofTokens? ["git", "reset", "--hard", hash] = some (.reset hash) := by
  simp [ofTokens?, subcommand, withHashAfter, wordAfter?, h]

end Command

end CommentThreads
