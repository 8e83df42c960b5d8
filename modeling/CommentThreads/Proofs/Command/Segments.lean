/-
CommentThreads.Proofs.Command.Segments — the line of a commit says what its segments say.

A segment is a message behind `-m`, a value behind one of the three flags, each between
marks, or a stray word. Segments are typed in any order and as often as one likes. Of each
kind the last one counts (`draftOf`); what stands between marks may look like a flag
itself, as it is never read as one.

`ofLine?_segments` is the result: the line that is typed asks for the commit that is said.
-/
import Mathlib.Data.List.Induction
import CommentThreads.Proofs.Command.Parser

namespace CommentThreads.Command

open CommentThreads.Text

/-! ## Segments -/

/-- One thing that stands on the line of a commit. -/
inductive Segment
  | message (text : String)
  | author (name : String)
  | password (secret : String)
  | fixup (hash : String)
  | stray (word : String)

/-- How a segment is typed. -/
def Segment.typed : Segment → String
  | .message text => "-m \"" ++ text ++ "\""
  | .author name => "--author=\"" ++ name ++ "\""
  | .password secret => "--password=\"" ++ secret ++ "\""
  | .fixup hash => "--fixup=\"" ++ hash ++ "\""
  | .stray word => word

/-- The line of a commit. -/
def lineOfSegments (segments : List Segment) : String :=
  "git commit " ++ joinWith " " (segments.map Segment.typed)

/-- The flags that have their value behind them. -/
def valueFlags : List String := ["--author=", "--password=", "--fixup="]

/-- There is no mark in what stands between marks. A stray word is one word without marks.
It is not `-m`, and does not begin like a flag. -/
def Segment.Proper : Segment → Prop
  | .message value | .author value | .password value | .fixup value => '"' ∉ value.toList
  | .stray word =>
    (Plain word.toList ∧ word ≠ "") ∧ word ≠ "-m" ∧
      ∀ flag ∈ valueFlags, startsWith word flag = false

def Segment.message? : Segment → Option String
  | .message text => some text
  | _ => none

def Segment.author? : Segment → Option String
  | .author name => some name
  | _ => none

def Segment.password? : Segment → Option String
  | .password secret => some secret
  | _ => none

def Segment.fixup? : Segment → Option String
  | .fixup hash => some hash
  | _ => none

/-- What the last segment of a kind says. -/
def lastSaid (kind : Segment → Option String) (segments : List Segment) : Option String :=
  (segments.filterMap kind).getLast?

/-- The comment as far as segments give it. An empty message is one, and an empty value
behind a flag is none. -/
def draftOf (segments : List Segment) : Draft where
  author := (lastSaid Segment.author? segments).bind nonEmpty?
  password := (lastSaid Segment.password? segments).bind nonEmpty?
  message := lastSaid Segment.message? segments
  parent := (lastSaid Segment.fixup? segments).bind nonEmpty?

/-! ## The words of a segment -/

/-- The words that a segment is typed as. -/
def Segment.words : Segment → List String
  | .message text => ["-m", "\"" ++ text ++ "\""]
  | segment => [segment.typed]

/-- The tokens that these words spell. -/
def Segment.tokens : Segment → List String
  | .message text => ["-m", text]
  | .author name => ["--author=" ++ name]
  | .password secret => ["--password=" ++ secret]
  | .fixup hash => ["--fixup=" ++ hash]
  | .stray word => [word]

theorem Segment.joinWith_words (segment : Segment) :
    joinWith " " segment.words = segment.typed := by
  cases segment with
  | message text =>
    have hflag : ("-m \"" : String) = "-m" ++ " " ++ "\"" := rfl
    simp only [words, typed, joinWith, hflag, String.append_assoc]
  | author name => rfl
  | password secret => rfl
  | fixup hash => rfl
  | stray word => rfl

theorem Segment.words_ne_nil (segment : Segment) : segment.words ≠ [] := by
  cases segment <;> exact List.cons_ne_nil _ _

/-- A flag with a value between marks. -/
theorem spells_flag {flag value : String} (hflag : Plain flag.toList)
    (hvalue : '"' ∉ value.toList) :
    List.Forall₂ Spells [flag ++ "\"" ++ value ++ "\""] [flag ++ value] :=
  .cons (.quoted hflag hvalue) .nil

theorem Segment.Proper.spells {segment : Segment} (h : segment.Proper) :
    List.Forall₂ Spells segment.words segment.tokens := by
  cases segment with
  | message text =>
    have hflag : Spells "-m" "-m" := .plain (by decide) (by decide)
    have htext := spells_flag (by decide : Plain "".toList) h
    rw [String.empty_append, String.empty_append] at htext
    exact .cons hflag htext
  | author name => exact spells_flag (by decide : Plain "--author=".toList) h
  | password secret => exact spells_flag (by decide : Plain "--password=".toList) h
  | fixup hash => exact spells_flag (by decide : Plain "--fixup=".toList) h
  | stray word => exact .cons (.plain h.1.1 h.1.2) .nil

theorem forall₂_spells {segments : List Segment} (h : ∀ segment ∈ segments, segment.Proper) :
    List.Forall₂ Spells (segments.flatMap Segment.words) (segments.flatMap Segment.tokens) := by
  induction segments with
  | nil => exact .nil
  | cons segment segments ih =>
    obtain ⟨hfirst, hrest⟩ := List.forall_mem_cons.mp h
    exact List.rel_append hfirst.spells (ih hrest)

/-- Words behind other words stand one separator away from them. -/
theorem joinWith_append (separator : String) {words rest : List String} (hwords : words ≠ [])
    (hrest : rest ≠ []) :
    joinWith separator (words ++ rest) =
      joinWith separator words ++ separator ++ joinWith separator rest := by
  induction words with
  | nil => exact absurd rfl hwords
  | cons word words ih =>
    cases words with
    | nil =>
      obtain ⟨next, rest, rfl⟩ := List.exists_cons_of_ne_nil hrest
      rfl
    | cons next words =>
      have hmore := ih (List.cons_ne_nil _ _)
      simp only [List.cons_append, joinWith, String.append_assoc] at hmore ⊢
      rw [hmore]

theorem flatMap_words_ne_nil {segments : List Segment} (h : segments ≠ []) :
    segments.flatMap Segment.words ≠ [] := by
  obtain ⟨segment, rest, rfl⟩ := List.exists_cons_of_ne_nil h
  rw [List.flatMap_cons]
  exact List.append_ne_nil_of_left_ne_nil segment.words_ne_nil _

theorem joinWith_flatMap_words (segments : List Segment) :
    joinWith " " (segments.flatMap Segment.words) = joinWith " " (segments.map Segment.typed) := by
  induction segments with
  | nil => rfl
  | cons segment rest ih =>
    cases rest with
    | nil => simp [joinWith, segment.joinWith_words]
    | cons next rest =>
      rw [List.flatMap_cons, joinWith_append _ segment.words_ne_nil
        (flatMap_words_ne_nil (List.cons_ne_nil next rest)), ih, segment.joinWith_words]
      rfl

/-! ## Their draft -/

/-- The draft with what one more segment says. -/
def addSegment (draft : Draft) : Segment → Draft
  | .message text => { draft with message := some text }
  | .author name => { draft with author := nonEmpty? name }
  | .password secret => { draft with password := nonEmpty? secret }
  | .fixup hash => { draft with parent := nonEmpty? hash }
  | .stray _ => draft

theorem addFlag_stray (draft : Draft) {word : String}
    (h : ∀ flag ∈ valueFlags, startsWith word flag = false) : addFlag draft word = draft := by
  have hnone : ∀ flag ∈ valueFlags, following? flag word = none := fun flag hflag => by
    have hstart := h flag hflag
    rw [startsWith, Option.isSome_eq_false_iff, Option.isNone_iff_eq_none] at hstart
    rw [following?, hstart, Option.map_none]
  rw [addFlag, hnone "--author=" (by decide), hnone "--password=" (by decide),
    hnone "--fixup=" (by decide)]

/-- The tokens of a segment are read as what it says, whatever stands behind them. -/
theorem addFlags_tokens {segment : Segment} (h : segment.Proper) (draft : Draft)
    (rest : List String) :
    addFlags draft (segment.tokens ++ rest) = addFlags (addSegment draft segment) rest := by
  cases segment with
  | message text => rfl
  | author name =>
    rw [Segment.tokens, List.singleton_append, addFlags_cons (flag_ne rfl name), addFlag_author]
    rfl
  | password secret =>
    rw [Segment.tokens, List.singleton_append, addFlags_cons (flag_ne rfl secret),
      addFlag_password]
    rfl
  | fixup hash =>
    rw [Segment.tokens, List.singleton_append, addFlags_cons (flag_ne rfl hash), addFlag_fixup]
    rfl
  | stray word =>
    obtain ⟨-, hshort, hflags⟩ := h
    rw [Segment.tokens, List.singleton_append, addFlags_cons hshort, addFlag_stray draft hflags]
    rfl

theorem addFlags_flatMap_tokens {segments : List Segment} (h : ∀ segment ∈ segments, segment.Proper)
    (draft : Draft) :
    addFlags draft (segments.flatMap Segment.tokens) = segments.foldl addSegment draft := by
  induction segments generalizing draft with
  | nil => rfl
  | cons segment segments ih =>
    obtain ⟨hfirst, hrest⟩ := List.forall_mem_cons.mp h
    rw [List.flatMap_cons, addFlags_tokens hfirst, ih hrest]
    rfl

theorem lastSaid_concat (kind : Segment → Option String) (segments : List Segment)
    (segment : Segment) :
    lastSaid kind (segments ++ [segment]) = (kind segment).or (lastSaid kind segments) := by
  cases hkind : kind segment <;> simp [lastSaid, List.filterMap_append, hkind]

/-- The last segment of a kind overrules those before it. -/
theorem foldl_addSegment (segments : List Segment) :
    segments.foldl addSegment .empty = draftOf segments := by
  induction segments using List.reverseRecOn with
  | nil => rfl
  | append_singleton segments segment ih =>
    rw [List.foldl_concat, ih]
    simp only [draftOf, lastSaid_concat]
    cases segment <;> rfl

/-! ## The line -/

/-- Whatever segments the line of a commit has, it asks for the commit that they say. -/
theorem ofLine?_segments {segments : List Segment} (h : ∀ segment ∈ segments, segment.Proper) :
    ofLine? (lineOfSegments segments) = some (.commit (draftOf segments)) := by
  by_cases hnone : segments = []
  · subst hnone
    decide
  · have hbegun : List.Forall₂ Spells ["git", "commit"] ["git", "commit"] :=
      .cons (.plain (by decide) (by decide)) (.cons (.plain (by decide) (by decide)) .nil)
    have hline : lineOfSegments segments =
        joinWith " " (["git", "commit"] ++ segments.flatMap Segment.words) := by
      rw [joinWith_append _ (List.cons_ne_nil _ _) (flatMap_words_ne_nil hnone),
        joinWith_flatMap_words]
      rfl
    rw [hline, ofLine?_joinWith (List.rel_append hbegun (forall₂_spells h)), ← foldl_addSegment,
      ← addFlags_flatMap_tokens h]
    rfl

/-- A message that looks like a flag is one, and flags that are given again, and emptily,
are taken back. -/
theorem ofLine?_segments_overruled :
    let segments : List Segment := [.author "Ann", .stray "--amend", .message "-m",
      .fixup "0a1b2c3d", .password "", .message "--author=Bob  ", .author "", .stray "-mx"]
    (∀ segment ∈ segments, segment.Proper) ∧
      lineOfSegments segments = "git commit --author=\"Ann\" --amend -m \"-m\" " ++
        "--fixup=\"0a1b2c3d\" --password=\"\" -m \"--author=Bob  \" --author=\"\" -mx" ∧
      ofLine? (lineOfSegments segments) =
        some (.commit ⟨none, none, some "--author=Bob  ", some "0a1b2c3d"⟩) := by
  intro segments
  have hproper : ∀ segment ∈ segments, segment.Proper := by
    simp only [segments, List.forall_mem_cons, Segment.Proper]
    exact ⟨by decide, by decide, by decide, by decide, by decide, by decide, by decide, by decide,
      fun _ h => absurd h List.not_mem_nil⟩
  exact ⟨hproper, by decide, ofLine?_segments hproper⟩

end CommentThreads.Command
