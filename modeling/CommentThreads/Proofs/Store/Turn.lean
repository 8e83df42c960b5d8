/-
CommentThreads.Proofs.Store.Turn — what a request can do to the comments.

A `Turn` is nothing, or one operation with what a request has to bring for it: a
post that is named and a message that is not blank. `Turn.cases` says what there is
afterwards. What is drawn for a turn is drawn later than what was drawn before
(`Turn.later`), and no turn sets the clock (`Turn.clock_eq`). A lone half of a
surrogate pair gets into a ledger as part of an author, and as nothing else
(`lettered_turn`).
-/
import CommentThreads.Proofs.Store.Removal
import CommentThreads.Proofs.Store.Threads
import CommentThreads.Text.Blank

namespace CommentThreads.Store

open Ledger Text Time

/-- What one request makes of a ledger. Posts and messages are strings: what is wrong
with others is found before anything is asked of the store. -/
inductive Turn (config : Config) : Site Ledger → Site Ledger → Prop
  | none (t : Site Ledger) : Turn config t t
  | create {post message : String} (author password parent : Option RawText)
    (hpost : post ≠ "") (hmessage : isBlankText message = false) (t : Site Ledger) :
    Turn config t (Ledger.create config post message author password parent t).2
  | update (hash password : RawText) {message : String} (hmessage : isBlankText message = false)
    (t : Site Ledger) : Turn config t (Ledger.update hash password message t).2
  | delete (hash password : RawText) (t : Site Ledger) :
    Turn config t (Ledger.delete hash password t).2

/-- A comment as a turn adds it: with a hash and a time that were drawn in that
turn, with a message, and as an answer to a comment that is there, if to any. -/
structure IsAdded (before : Site Ledger) (after : Supply) (c : Comment) : Prop where
  hash_eq : ∃ k, before.supply.digitsDrawn ≤ k ∧ k < after.digitsDrawn ∧
    c.hash = ↑(firstChars Comment.hashLength (before.supply.digits k))
  post_eq : ∃ post : String, post ≠ "" ∧ c.post = post
  message_eq : ∃ message : String, isBlankText message = false ∧ c.message = message
  parent_eq : ∀ parent ∈ c.parent, ∃ answered ∈ before.store.comments, answered.hash = parent
  created_eq : ∃ k, c.created = .utc (before.supply.clock k)
  updated_eq : c.updated = Option.none

/-- What a new comment answers is a comment that is there. -/
theorem mem_of_attachGiven {post : RawText} {parent : Option RawText} {comments : List Comment}
    {resolved : Option RawText} (h : attachGiven post parent comments = .ok resolved) :
    ∀ hash ∈ resolved, ∃ answered ∈ comments, answered.hash = hash := by
  intro hash hmem
  cases hmem
  unfold attachGiven at h
  cases hgiven : given parent with
  | none =>
    rw [hgiven] at h
    cases h
  | some named =>
    simp only [hgiven] at h
    cases hattach : attach post named comments with
    | error fault =>
      rw [hattach] at h
      cases h
    | ok root =>
      rw [hattach] at h
      cases h
      obtain ⟨c, hfound, -, ⟨-, hhash⟩ | ⟨-, root', hroot, -, hhash⟩⟩ := attach_eq_ok hattach
      · exact ⟨c, mem_of_withHash? hfound, hhash.symm⟩
      · exact ⟨root', mem_of_withHash? hroot, hhash.symm⟩

theorem isAdded_of_isNew (config : Config) {post message : String}
    {author parent : Option RawText} (password : Option RawText) {t : Site Ledger} {c : Comment}
    (h : IsNew config.defaultAuthor post message author parent t.supply t.store.comments c)
    (hpost : post ≠ "") (hmessage : isBlankText message = false) :
    IsAdded t (Ledger.create config post message author password parent t).2.supply c where
  hash_eq := drawn_of_isNew password h
  post_eq := ⟨post, hpost, h.post_eq⟩
  message_eq := ⟨message, hmessage, h.message_eq⟩
  parent_eq := mem_of_attachGiven h.parent_eq
  created_eq := ⟨t.supply.clockRead, h.created_eq⟩
  updated_eq := h.updated_eq

theorem IsAdded.post_ne {t : Site Ledger} {after : Supply} {c : Comment} (h : IsAdded t after c) :
    c.post ≠ "" := by
  obtain ⟨post, hne, hpost⟩ := h.post_eq
  simpa [hpost] using hne

theorem IsAdded.message_ne {t : Site Ledger} {after : Supply} {c : Comment}
    (h : IsAdded t after c) : c.message.isBlank = false := by
  obtain ⟨message, hblank, hmessage⟩ := h.message_eq
  rw [hmessage]
  exact hblank

/-- After a turn the comments are the same, or there is one more, or one has another
message, or one is gone. -/
theorem Turn.cases {config : Config} {t t' : Site Ledger} (h : Turn config t t') :
    t'.store = t.store ∨
    (∃ c lock, IsAdded t t'.supply c ∧ t'.store = ⟨c, lock⟩ :: t.store) ∨
    (∃ (hash : RawText) (message : String) (k : Nat), isBlankText message = false ∧
      t'.store = Ledger.edit hash message (.utc (t.supply.clock k)) t.store) ∨
    ∃ hash, t'.store = Ledger.remove hash t.store := by
  cases h with
  | none t => exact .inl rfl
  | @create post message author password parent hpost hmessage =>
    obtain ⟨fault, -, hstore⟩ | ⟨c, hnew, -, hstore⟩ :=
      create_cases config post message author password parent t
    · exact .inl hstore
    · exact .inr (.inl ⟨c, _, isAdded_of_isNew config password hnew hpost hmessage, hstore⟩)
  | @update hash password message hmessage =>
    obtain ⟨fault, -, hstore⟩ | ⟨c, -, -, hstore⟩ := update_cases hash password message t
    · exact .inl hstore
    · exact .inr (.inr (.inl ⟨hash, message, t.supply.clockRead, hmessage, hstore⟩))
  | delete hash password =>
    obtain ⟨fault, -, hstore⟩ | ⟨c, -, -, hstore⟩ := delete_cases hash password t
    · exact .inl hstore
    · exact .inr (.inr (.inr ⟨hash, hstore⟩))

theorem Turn.later {config : Config} {t t' : Site Ledger} (h : Turn config t t') :
    t.supply.Later t'.supply := by
  cases h with
  | none t => exact t.supply.later_refl
  | @create post message author password parent =>
    exact later_onLedger config.defaultAuthor
      (.create config.salt post message author password parent) t
  | @update hash password message =>
    exact later_onLedger config.defaultAuthor (.update hash password message) t
  | delete hash password => exact later_onLedger config.defaultAuthor (.delete hash password) t

/-- No text of a comment but its author has a lone half of a surrogate pair. -/
structure Lettered (c : Comment) : Prop where
  hash : c.hash.isPlain = true
  post : c.post.isPlain = true
  message : c.message.isPlain = true
  parent : ∀ parent ∈ c.parent, parent.isPlain = true

theorem IsAdded.lettered {t : Site Ledger} {after : Supply} {c : Comment} (h : IsAdded t after c)
    (hearlier : ∀ earlier ∈ t.store.comments, Lettered earlier) : Lettered c where
  hash := by
    obtain ⟨k, -, -, hhash⟩ := h.hash_eq
    rw [hhash, RawText.isPlain_plain]
  post := by
    obtain ⟨post, -, hpost⟩ := h.post_eq
    rw [hpost, RawText.isPlain_plain]
  message := by
    obtain ⟨message, -, hmessage⟩ := h.message_eq
    rw [hmessage, RawText.isPlain_plain]
  parent parent hparent := by
    obtain ⟨answered, hmem, rfl⟩ := h.parent_eq parent hparent
    exact (hearlier answered hmem).hash

theorem lettered_edit {hash : RawText} {message : String} {time : DateTime} {l : Ledger}
    (h : ∀ c ∈ l.comments, Lettered c) : ∀ c ∈ (Ledger.edit hash message time l).comments,
      Lettered c := by
  intro c hc
  rw [comments_edit] at hc
  obtain ⟨old, hold, rfl⟩ := List.mem_map.mp hc
  have hletters := h old hold
  split
  · exact ⟨hletters.hash, hletters.post, RawText.isPlain_plain _, hletters.parent⟩
  · exact hletters

theorem lettered_remove {hash : RawText} {l : Ledger} (h : ∀ c ∈ l.comments, Lettered c) :
    ∀ c ∈ (Ledger.remove hash l).comments, Lettered c := by
  intro c hc
  rw [comments_remove] at hc
  exact h c (List.mem_filter.mp hc).1

theorem lettered_turn {config : Config} {t t' : Site Ledger} (hturn : Turn config t t')
    (h : ∀ c ∈ t.store.comments, Lettered c) : ∀ c ∈ t'.store.comments, Lettered c := by
  rcases hturn.cases with hstore | ⟨added, lock, hadded, hstore⟩ |
    ⟨hash, message, k, -, hstore⟩ | ⟨hash, hstore⟩
  · rw [hstore]
    exact h
  · rw [hstore]
    exact List.forall_mem_cons.mpr ⟨hadded.lettered h, h⟩
  · rw [hstore]
    exact lettered_edit h
  · rw [hstore]
    exact lettered_remove h

theorem clock_drawHash (comments : List Comment) (attempts : Nat) (supply : Supply) :
    (drawHash comments attempts supply).2.clock = supply.clock := by
  induction attempts generalizing supply with
  | zero => rfl
  | succ attempts ih =>
    simp only [drawHash]
    split
    · exact ih supply.nextDigits.2
    · rfl

theorem Turn.clock_eq {config : Config} {t t' : Site Ledger} (h : Turn config t t') :
    t'.supply.clock = t.supply.clock := by
  cases h with
  | none t => rfl
  | @create post message author password parent =>
    rw [Ledger.create]
    cases attachGiven post parent t.store.comments with
    | error fault => rfl
    | ok resolved =>
      have hclock := clock_drawHash t.store.comments mostAttempts t.supply
      cases hdraw : drawHash t.store.comments mostAttempts t.supply with
      | mk r supply =>
        rw [hdraw] at hclock
        cases r with
        | error fault => exact hclock
        | ok hash =>
          simp only
          split
          · exact hclock
          · exact hclock
  | @update hash password message =>
    rw [Ledger.update]
    cases Ledger.authorize hash password t.store with
    | error fault => rfl
    | ok c =>
      simp only
      split
      · rfl
      · rfl
  | delete hash password =>
    rw [Ledger.delete]
    cases Ledger.authorize hash password t.store with
    | error fault => rfl
    | ok c => rfl

end CommentThreads.Store
