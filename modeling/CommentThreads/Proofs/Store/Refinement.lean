/-
CommentThreads.Proofs.Store.Refinement — a store keeps a ledger, and the
operations on it do what the ledger's operations do.

`Keeps` says what the keys of a store hold when it keeps a ledger: the
indexes its hashes, the records its comments, the passwords its locks, and
no other key anything. The reading actions answer from the ledger and leave
the site alone; `create_refines`, `update_refines` and `delete_refines` say
that the three changes end as they do on the ledger, whatever the outcome,
and that the store keeps the ledger that results.
-/
import CommentThreads.Proofs.Password.Salt
import CommentThreads.Proofs.Record.Stored
import CommentThreads.Proofs.Store.Ledger
import CommentThreads.Proofs.Store.Outcome

namespace CommentThreads.Store

open Ledger Time

variable {σ : Type} [KeyValue σ] [Viewed σ]

/-- A store keeps a ledger. -/
structure Keeps (s : σ) (l : Ledger) : Prop where
  index : ∀ post, Viewed.listAt s (indexKey post) = (ofPost post l.comments).map Comment.hash
  record : ∀ hash,
    Viewed.valueAt? s (recordKey hash) = (withHash? hash l.comments).map Comment.toJson
  password : ∀ hash,
    Viewed.valueAt? s (passwordKey hash) =
      ((posting? hash l).bind Posting.lock).map fun stored : String => .text stored
  valueKeys : ∀ key, Viewed.valueAt? s key ≠ none →
    ∃ hash, key = recordKey hash ∨ key = passwordKey hash
  listKeys : ∀ key, Viewed.listAt s key ≠ [] → ∃ post, key = indexKey post
  distinct : (l.comments.map Comment.hash).Nodup
  dated : ∀ c ∈ l.comments, c.Dated
  locks : ∀ p ∈ l, ∀ stored ∈ p.lock, ∃ salt password, Password.hash? salt password = some stored

/-- A store that holds nothing keeps the empty ledger. -/
theorem keeps_nil {s : σ} (hvalues : ∀ key, Viewed.valueAt? s key = none)
    (hlists : ∀ key, Viewed.listAt s key = []) : Keeps s [] where
  index post := hlists _
  record hash := hvalues _
  password hash := hvalues _
  valueKeys key h := absurd (hvalues key) h
  listKeys key h := absurd (hlists key) h
  distinct := List.nodup_nil
  dated c h := by simp [comments] at h
  locks p h := by simp at h

section Keys

variable {s : σ} {l : Ledger} (h : Keeps s l)

include h

theorem Keeps.valueAt?_indexKey (post : RawText) : Viewed.valueAt? s (indexKey post) = none := by
  cases hvalue : Viewed.valueAt? s (indexKey post) with
  | none => rfl
  | some v =>
    obtain ⟨hash, hkey⟩ := h.valueKeys (indexKey post) (by simp [hvalue])
    simp at hkey

theorem Keeps.listAt_recordKey (hash : RawText) : Viewed.listAt s (recordKey hash) = [] := by
  cases hlist : Viewed.listAt s (recordKey hash) with
  | nil => rfl
  | cons item items =>
    obtain ⟨post, hkey⟩ := h.listKeys (recordKey hash) (by simp [hlist])
    simp at hkey

theorem Keeps.listAt_passwordKey (hash : RawText) : Viewed.listAt s (passwordKey hash) = [] := by
  cases hlist : Viewed.listAt s (passwordKey hash) with
  | nil => rfl
  | cons item items =>
    obtain ⟨post, hkey⟩ := h.listKeys (passwordKey hash) (by simp [hlist])
    simp at hkey

end Keys

theorem perform_get (key : RawText) (s : Site σ) :
    s.perform (.get key) = (Viewed.valueAt? s.store key, s) := by
  simp only [Site.perform, Viewed.perform_get]

theorem perform_items (key : RawText) (s : Site σ) :
    s.perform (.items key) = (Viewed.listAt s.store key, s) := by
  simp only [Site.perform, Viewed.perform_items]

/-! ## Reading -/

/-- A record is read with what was drawn for the fields that it lacks. -/
theorem outcome_loadRecord_object {τ : Type} [KeyValue τ] {fields : Entries RawText Json}
    {hash : RawText} {created : DateTime} {c : Comment} {s s₁ s₂ : Site τ}
    (hhash : (unlessPresent "commit_hash" (.object fields) ("" : RawText) freshHash).outcome s =
      (.ok hash, s₁))
    (hcreated : (unlessPresent "created_at" (.object fields) (.utc 0) currentTime).outcome s₁ =
      (.ok created, s₂))
    (hread : Comment.reader hash created (.object fields) = .valid c) :
    (loadRecord (.object fields)).outcome s = (.ok c, s₂) := by
  rw [loadRecord, outcome_bind_ok hhash, outcome_bind_ok hcreated, hread]
  rfl

/-- The record of a comment lacks nothing, so it is loaded without drawing. -/
theorem outcome_loadRecord {τ : Type} [KeyValue τ] {c : Comment} (h : c.Dated) (s : Site τ) :
    (loadRecord c.toJson).outcome s = (.ok c, s) := by
  obtain ⟨hhash, -, -, -, -, hcreated, -⟩ := Comment.fields_toJson c
  have hread := Comment.reader_toJson h "" (.utc 0)
  obtain ⟨fields, hfields⟩ : ∃ fields, c.toJson = .object fields := ⟨_, rfl⟩
  rw [hfields] at hhash hcreated hread ⊢
  have hhash' : (unlessPresent "commit_hash" (.object fields) ("" : RawText) freshHash).outcome s =
      (.ok "", s) := by
    simp only [unlessPresent, hhash, outcome_pure]
  have hcreated' : (unlessPresent "created_at" (.object fields) (.utc 0) currentTime).outcome s =
      (.ok (.utc 0), s) := by
    simp only [unlessPresent, hcreated, outcome_pure]
  exact outcome_loadRecord_object hhash' hcreated' hread

section Reading

variable [TakesAll σ] {s : Site σ} {l : Ledger}

theorem outcome_getRecord (h : Keeps s.store l) (hash : RawText) :
    (ask (.get (recordKey hash))).outcome s =
      (.ok ((withHash? hash l.comments).map Comment.toJson), s) := by
  rw [outcome_ask, perform_get, h.record]

theorem outcome_find (h : Keeps s.store l) (hash : RawText) :
    (find hash).outcome s = (.ok (withHash? hash l.comments), s) := by
  rw [find, outcome_bind_ok (outcome_getRecord h hash)]
  cases hc : withHash? hash l.comments with
  | none => rfl
  | some c =>
    have hdated := h.dated c (mem_of_withHash? hc)
    simp only [Option.map_some]
    rw [outcome_bind_ok (outcome_loadRecord hdated s)]
    rfl

/-- Hashes of comments that are kept are looked up one by one. -/
theorem outcome_findAll (h : Keeps s.store l) (cs : List Comment)
    (hcs : ∀ c ∈ cs, withHash? c.hash l.comments = some c) :
    (findAll (cs.map Comment.hash)).outcome s = (.ok cs, s) := by
  induction cs with
  | nil => rfl
  | cons c rest ih =>
    have hfound := outcome_find h c.hash
    rw [hcs c (by simp)] at hfound
    have hothers := ih fun d hd => hcs d (by simp [hd])
    rw [List.map_cons, findAll, outcome_bind_ok hfound, outcome_bind_ok hothers]
    rfl

theorem outcome_list (h : Keeps s.store l) (post : RawText) :
    (list post).outcome s = (.ok (ofPost post l.comments), s) := by
  have hitems : (ask (.items (indexKey post))).outcome s =
      (.ok ((ofPost post l.comments).map Comment.hash), s) := by
    rw [outcome_ask, perform_items, h.index]
  rw [list, outcome_bind_ok hitems]
  exact outcome_findAll h _ fun c hc =>
    withHash?_of_mem h.distinct (List.mem_filter.mp hc).1

theorem outcome_threads (h : Keeps s.store l) (post : RawText) :
    (threads post).outcome s = (.ok (threadsOf (ofPost post l.comments)), s) := by
  rw [threads, outcome_bind_ok (outcome_list h post)]
  rfl

theorem outcome_findOn (h : Keeps s.store l) (post hash : RawText) :
    (findOn post hash).outcome s = (onPost post hash l.comments, s) := by
  rw [findOn, outcome_bind_ok (outcome_find h hash), onPost]
  cases withHash? hash l.comments with
  | none => rfl
  | some c => by_cases hpost : c.post = post <;> simp [hpost]

theorem outcome_resolveParent (h : Keeps s.store l) (post hash : RawText) :
    (resolveParent post hash).outcome s = (attach post hash l.comments, s) := by
  rw [resolveParent, outcome_bind (outcome_findOn h post hash), attach]
  cases onPost post hash l.comments with
  | error fault => rfl
  | ok c =>
    by_cases hroot : c.isRoot = true
    · simp [hroot]
    · simp only [hroot, if_false, Bool.false_eq_true]
      rw [outcome_bind (outcome_findOn h post (c.parent.getD ""))]
      cases onPost post (c.parent.getD "") l.comments <;> rfl

theorem outcome_resolveGiven (h : Keeps s.store l) (post : RawText) (parent : Option RawText) :
    (resolveGiven post parent).outcome s = (attachGiven post parent l.comments, s) := by
  rw [resolveGiven, attachGiven]
  cases given parent with
  | none => rfl
  | some hash =>
    simp only
    rw [outcome_bind (outcome_resolveParent h post hash)]
    cases attach post hash l.comments <;> rfl

/-- A hash is drawn again exactly as long as a comment that is kept has it. -/
theorem outcome_newHash (attempts : Nat) {s : Site σ} (h : Keeps s.store l) :
    (newHash attempts).outcome s =
      ((drawHash l.comments attempts s.supply).1,
        { s with supply := (drawHash l.comments attempts s.supply).2 }) := by
  induction attempts generalizing s with
  | zero => rfl
  | succ attempts ih =>
    have hget := outcome_getRecord (s := { s with supply := s.supply.nextDigits.2 }) h
      (Text.firstChars Comment.hashLength s.supply.nextDigits.1)
    rw [newHash, outcome_bind_ok (outcome_freshHash s), outcome_bind_ok hget, drawHash]
    cases withHash? (Text.firstChars Comment.hashLength s.supply.nextDigits.1) l.comments with
    | none => rfl
    | some c => exact ih (s := { s with supply := s.supply.nextDigits.2 }) h

omit [KeyValue σ] [Viewed σ] [TakesAll σ] in
/-- A password that cannot be encoded opens nothing. -/
theorem opens_of_not_isPlain {password : RawText} (h : password.isPlain = false)
    (stored : String) : opens password stored = false := by
  refine Bool.eq_false_iff.mpr fun hopens => ?_
  simp only [opens, Bool.and_eq_true, decide_eq_true_eq] at hopens
  rw [Password.isPlain_of_hash? hopens.2] at h
  cases h

omit [KeyValue σ] [Viewed σ] [TakesAll σ] in
/-- What was made by hashing a password counts as given. A check against it gives an
answer, if the password that is tried can be encoded. -/
theorem passes_of_hash {salt stored : String} {password : RawText}
    (h : Password.hash? salt password = some stored) (other : RawText) :
    (Json.text stored).isGiven = true ∧
      passes other (.text stored) =
        if other.isPlain then .ok (opens other stored) else .error .notEncodable := by
  refine ⟨by simpa [Json.isGiven] using Password.hash?_ne_empty h, ?_⟩
  obtain ⟨password, rfl⟩ := RawText.isPlain_iff.mp (Password.isPlain_of_hash? h)
  cases other with
  | plain other =>
    rw [passes, opens, Password.verify?_of_hash h]
    by_cases hempty : other = "" <;> simp [hempty]
  | torn s half rest => rfl

theorem outcome_authorize (h : Keeps s.store l) (hash password : RawText) :
    (authorize hash password).outcome s = (Ledger.authorize hash password l, s) := by
  have hget : (ask (.get (passwordKey hash))).outcome s =
      (.ok (((posting? hash l).bind Posting.lock).map fun stored : String => .text stored), s) := by
    rw [outcome_ask, perform_get, h.password]
  rw [authorize, outcome_bind_ok (outcome_find h hash), Ledger.authorize, withHash?_comments]
  cases hp : posting? hash l with
  | none => rfl
  | some p =>
    obtain ⟨c, lock⟩ := p
    simp only [Option.map_some]
    rw [outcome_bind_ok hget, hp]
    cases lock with
    | none => rfl
    | some stored =>
      obtain ⟨salt, password', hhash⟩ := h.locks _ (List.mem_of_find?_eq_some hp) stored rfl
      obtain ⟨hgiven, hpasses⟩ := passes_of_hash hhash password
      have hcheck : Action.outcome (ExceptT.mk (pure (passes password (.text stored)))) s =
          (passes password (.text stored), s) := rfl
      simp only [Option.bind_some, Option.map_some, hgiven, Bool.not_true, Bool.false_eq_true,
        if_false]
      rw [outcome_bind hcheck, hpasses, refusal]
      cases hplain : password.isPlain with
      | true => cases opens password stored <;> rfl
      | false =>
        simp [opens_of_not_isPlain hplain]

end Reading

/-! ## Changing -/

section Changing

variable [TakesAll σ] {s : σ} {l : Ledger}

@[simp] theorem nonNull?_toJson (c : Comment) : c.toJson.nonNull? = some c.toJson := rfl

/-- A record and an entry in front of the index keep one more comment. -/
theorem Keeps.add (h : Keeps s l) {c : Comment} (hnew : withHash? c.hash l.comments = none)
    (hdated : c.Dated) :
    Keeps (KeyValue.perform (.prepend (indexKey c.post) c.hash)
      (KeyValue.perform (.set (recordKey c.hash) c.toJson) s).2).2 (⟨c, none⟩ :: l) where
  index post := by
    by_cases hpost : post = c.post
    · simp [hpost, ofPost_cons, h.index]
    · simp [hpost, Ne.symm hpost, ofPost_cons, h.index]
  record hash := by
    by_cases hhash : hash = c.hash
    · simp [hhash, withHash?_cons]
    · simp [hhash, Ne.symm hhash, withHash?_cons, h.record]
  password hash := by
    by_cases hhash : hash = c.hash
    · simp [hhash, posting?_cons, h.password, posting?_eq_none_iff.mpr hnew]
    · simp [Ne.symm hhash, posting?_cons, h.password]
  valueKeys key := by
    by_cases hkey : key = recordKey c.hash
    · exact fun _ => ⟨c.hash, .inl hkey⟩
    · simpa [hkey, h.valueAt?_indexKey] using h.valueKeys key
  listKeys key := by
    by_cases hkey : key = indexKey c.post
    · exact fun _ => ⟨c.post, hkey⟩
    · simpa [hkey, h.listAt_recordKey] using h.listKeys key
  distinct := by
    simpa [h.distinct] using withHash?_eq_none_iff.mp hnew
  dated d hd := by
    rcases List.mem_cons.mp hd with rfl | hd
    · exact hdated
    · exact h.dated d hd
  locks p hp := by
    rcases List.mem_cons.mp hp with rfl | hp
    · simp
    · exact h.locks p hp

/-- The hash of a password locks the comment that was added last. -/
theorem Keeps.lock {c : Comment} (h : Keeps s (⟨c, none⟩ :: l)) {salt stored : String}
    {password : RawText}
    (hstored : Password.hash? salt password = some stored) :
    Keeps (KeyValue.perform (.set (passwordKey c.hash) (.text stored)) s).2
      (⟨c, some stored⟩ :: l) where
  index post := by simp [h.index]
  record hash := by simp [h.record]
  password hash := by
    by_cases hhash : hash = c.hash
    · simp [hhash, posting?_cons, Json.nonNull?]
    · simp [hhash, Ne.symm hhash, posting?_cons, h.password]
  valueKeys key := by
    by_cases hkey : key = passwordKey c.hash
    · exact fun _ => ⟨c.hash, .inr hkey⟩
    · simpa [hkey] using h.valueKeys key
  listKeys key := by
    simpa [h.listAt_passwordKey] using h.listKeys key
  distinct := h.distinct
  dated := h.dated
  locks p hp := by
    rcases List.mem_cons.mp hp with rfl | hp
    · rintro _ ⟨⟩
      exact ⟨salt, password, hstored⟩
    · exact h.locks p (List.mem_cons_of_mem _ hp)

/-- A new record edits the comment that it belongs to. -/
theorem Keeps.edit (h : Keeps s l) {hash : RawText} {c : Comment}
    (hc : withHash? hash l.comments = some c) (message : RawText) {micros : Int}
    (hmicros : inRange micros = true) :
    Keeps (KeyValue.perform (.set (recordKey hash) (edited message (.utc micros) c).toJson) s).2
      (Ledger.edit hash message (.utc micros) l) where
  index post := by simp [h.index, hashes_ofPost_edit]
  record other := by
    by_cases ho : other = hash
    · simp [ho, withHash?_edit, hc]
    · simp [ho, withHash?_edit, h.record]
  password other := by simp [h.password, lock_edit]
  valueKeys key := by
    by_cases hkey : key = recordKey hash
    · exact fun _ => ⟨hash, .inl hkey⟩
    · simpa [hkey] using h.valueKeys key
  listKeys key := by
    simpa [h.listAt_recordKey] using h.listKeys key
  distinct := by
    rw [hashes_edit]
    exact h.distinct
  dated d hd := by
    rw [comments_edit] at hd
    obtain ⟨d, hmem, rfl⟩ := List.mem_map.mp hd
    have hdated := h.dated d hmem
    split
    · refine ⟨hdated.created, ?_⟩
      rintro _ ⟨⟩
      exact ⟨micros, hmicros, rfl⟩
    · exact hdated
  locks p hp := by
    obtain ⟨p, hmem, rfl⟩ := List.mem_map.mp hp
    have hlocks := h.locks p hmem
    split
    · exact hlocks
    · exact hlocks

omit [TakesAll σ] in
/-- Without its entry, its record and its password a comment is gone. -/
theorem Keeps.remove (h : Keeps s l) {hash : RawText} {c : Comment}
    (hc : withHash? hash l.comments = some c) :
    Keeps (KeyValue.perform (.delete (passwordKey hash))
      (KeyValue.perform (.delete (recordKey hash))
        (KeyValue.perform (.remove (indexKey c.post) hash) s).2).2).2 (Ledger.remove hash l) where
  index post := by
    rw [hashes_ofPost_remove, ← h.index]
    by_cases hpost : post = c.post
    · simp [hpost]
    · -- the comment is on another post, so its hash is not in this index
      have hother : ∀ other ∈ Viewed.listAt s (indexKey post), other ≠ hash := by
        rw [h.index]
        rintro _ hmem rfl
        obtain ⟨d, hd, hdhash⟩ := List.mem_map.mp hmem
        obtain ⟨hmem, hdpost⟩ := List.mem_filter.mp hd
        have hdc := withHash?_of_mem h.distinct hmem
        rw [hdhash, hc] at hdc
        cases hdc
        exact hpost (of_decide_eq_true hdpost).symm
      simp only [Viewed.listAt_delete, Viewed.listAt_remove, indexKey_ne_passwordKey,
        indexKey_ne_recordKey, indexKey_inj, hpost, if_false]
      exact (List.filter_eq_self.mpr fun other hmem => by simpa using hother other hmem).symm
  record other := by
    by_cases ho : other = hash
    · simp [ho, withHash?_comments, posting?_remove]
    · simp [ho, withHash?_comments, posting?_remove, h.record]
  password other := by
    by_cases ho : other = hash
    · simp [ho, posting?_remove]
    · simp [ho, posting?_remove, h.password]
  valueKeys key hkey := by
    simp at hkey
    exact h.valueKeys key hkey.2.2
  listKeys key hkey := by
    by_cases hindex : key = indexKey c.post
    · exact ⟨c.post, hindex⟩
    · refine h.listKeys key fun hnil => hkey ?_
      simp [hindex, hnil]
  distinct := by
    rw [comments_remove]
    exact h.distinct.sublist (List.filter_sublist.map _)
  dated d hd := by
    rw [comments_remove] at hd
    exact h.dated d (List.mem_filter.mp hd).1
  locks p hp := h.locks p (List.mem_filter.mp hp).1

end Changing

/-! ## The operations -/

/-- A site whose store keeps a ledger, with the same draws ahead. -/
structure KeepsAt (s : Site σ) (t : Site Ledger) : Prop where
  store : Keeps s.store t.store
  supply : s.supply = t.supply

/-- An action does at a site what a function does to the ledger that is kept
there: it ends alike, draws alike, and the ledger that results is kept. -/
def Refines (σ : Type) [KeyValue σ] [Viewed σ] {α : Type} (a : Action α)
    (f : Site Ledger → Except Fault α × Site Ledger) : Prop :=
  ∀ (s : Site σ) (t : Site Ledger), KeepsAt s t →
    (a.outcome s).1 = (f t).1 ∧ KeepsAt (a.outcome s).2 (f t).2

section Operations

variable [TakesAll σ]

/-- The last step of a new comment keeps its password, if there is one. -/
theorem outcome_keepPassword {c : Comment} {l : Ledger} {s : Site σ}
    (h : Keeps s.store (⟨c, none⟩ :: l)) {config : Config} {password : Option RawText}
    {lock : Option String} (hlock : lockFor config.salt password = .ok lock) :
    ∃ store, (keepPassword config c.hash password).outcome s = (.ok (), ⟨store, s.supply⟩) ∧
      Keeps store (⟨c, lock⟩ :: l) := by
  rw [lockFor] at hlock
  rw [keepPassword]
  cases hgiven : given password with
  | none =>
    rw [hgiven] at hlock
    cases hlock
    exact ⟨s.store, rfl, h⟩
  | some password =>
    simp only [hgiven] at hlock
    cases hstored : Password.hash? config.salt password with
    | none => simp [hstored] at hlock
    | some stored =>
      rw [hstored] at hlock
      cases hlock
      exact ⟨_, by simp only [hstored]; exact outcome_ask _ s, h.lock hstored⟩

omit [Viewed σ] [TakesAll σ] in
/-- A password without a hash ends a new comment without its password. -/
theorem outcome_keepPassword_refused {s : Site σ} {config : Config}
    {password : Option RawText} {fault : Fault}
    (hlock : lockFor config.salt password = .error fault) (hash : RawText) :
    (keepPassword config hash password).outcome s = (.error fault, s) := by
  rw [lockFor] at hlock
  rw [keepPassword]
  cases hgiven : given password with
  | none => simp [hgiven] at hlock
  | some password =>
    simp only [hgiven] at hlock
    cases hstored : Password.hash? config.salt password with
    | none =>
      rw [hstored] at hlock
      cases hlock
      simp only [hstored]
      rfl
    | some stored => simp [hstored] at hlock

/-- What is written of a new comment, in the order in which it is written. -/
def writeNew (config : Config) (password : Option RawText) (c : Comment) : Action Comment := do
  ask (.set (recordKey c.hash) c.toJson)
  ask (.prepend (indexKey c.post) c.hash)
  keepPassword config c.hash password
  return c

theorem create_eq (config : Config) (post message : RawText)
    (author password parent : Option RawText) :
    create config post message author password parent = (do
      let parent ← resolveGiven post parent
      let hash ← newHash mostAttempts
      let created ← currentTime
      writeNew config password
        ⟨hash, post, (given author).getD config.defaultAuthor, message, parent, created, none⟩) :=
  rfl

omit [Viewed σ] [TakesAll σ] in
/-- A comment that was created is made of what was asked for, and of what was drawn. -/
theorem created_eq {config : Config} {post message : RawText}
    {author password parent : Option RawText} {s s' : Site σ} {c : Comment}
    (h : (create config post message author password parent).outcome s = (.ok c, s')) :
    ∃ hash resolved created, ∃ s₁ s₂ : Site σ, (newHash mostAttempts).outcome s₁ = (.ok hash, s₂) ∧
      c = ⟨hash, post, (given author).getD config.defaultAuthor, message, resolved, created,
        none⟩ := by
  rw [create_eq] at h
  obtain ⟨resolved, s₁, -, h⟩ := ok_of_outcome_bind h
  obtain ⟨hash, s₂, hhash, h⟩ := ok_of_outcome_bind h
  obtain ⟨created, s₃, -, h⟩ := ok_of_outcome_bind h
  obtain ⟨_, s₄, -, h⟩ := ok_of_outcome_bind h
  obtain ⟨_, s₅, -, h⟩ := ok_of_outcome_bind h
  obtain ⟨_, s₆, -, h⟩ := ok_of_outcome_bind h
  cases h
  exact ⟨hash, resolved, created, s₁, s₂, hhash, rfl⟩

theorem outcome_writeNew {s : Site σ} {l : Ledger} (h : Keeps s.store l) {c : Comment}
    (hnew : withHash? c.hash l.comments = none) (hdated : c.Dated) (config : Config)
    (password : Option RawText) :
    ∃ store, (writeNew config password c).outcome s =
        ((lockFor config.salt password).map fun _ => c, ⟨store, s.supply⟩) ∧
      Keeps store (⟨c, (lockFor config.salt password).toOption.join⟩ :: l) := by
  have hset : (ask (.set (recordKey c.hash) c.toJson)).outcome s =
      (.ok (), ⟨(KeyValue.perform (.set (recordKey c.hash) c.toJson) s.store).2, s.supply⟩) :=
    outcome_ask _ s
  have hprepend (store : σ) : (ask (.prepend (indexKey c.post) c.hash)).outcome ⟨store, s.supply⟩ =
      (.ok (), ⟨(KeyValue.perform (.prepend (indexKey c.post) c.hash) store).2, s.supply⟩) :=
    outcome_ask _ _
  have hadded := h.add hnew hdated
  rw [writeNew, outcome_bind_ok hset, outcome_bind_ok (hprepend _)]
  cases hlock : lockFor config.salt password with
  | error fault =>
    rw [outcome_bind (outcome_keepPassword_refused hlock c.hash)]
    exact ⟨_, rfl, hadded⟩
  | ok lock =>
    obtain ⟨store, hkeep, hkept⟩ := outcome_keepPassword (s := ⟨_, s.supply⟩) hadded hlock
    rw [outcome_bind_ok hkeep]
    exact ⟨store, rfl, hkept⟩

theorem create_refines (config : Config) (post message : RawText)
    (author password parent : Option RawText) :
    Refines σ (create config post message author password parent)
      (Ledger.create config post message author password parent) := by
  rintro ⟨store, supply⟩ ⟨l, _⟩ ⟨h, rfl⟩
  have hparent := outcome_resolveGiven (s := ⟨store, supply⟩) h post parent
  rw [create_eq, outcome_bind hparent, Ledger.create]
  cases attachGiven post parent l.comments with
  | error fault => exact ⟨rfl, h, rfl⟩
  | ok parent =>
    have hhash := outcome_newHash mostAttempts (s := ⟨store, supply⟩) h
    simp only
    rw [outcome_bind hhash]
    cases hdraw : drawHash l.comments mostAttempts supply with
    | mk r supply' =>
      cases r with
      | error fault => exact ⟨rfl, h, rfl⟩
      | ok hash =>
        simp only
        rw [outcome_bind (outcome_currentTime _)]
        cases hrange : inRange supply'.nextTime.1 with
        | false => exact ⟨rfl, h, rfl⟩
        | true =>
          obtain ⟨store', hwrites, hkept⟩ :=
            outcome_writeNew (s := ⟨store, supply'.nextTime.2⟩)
              (c := ⟨hash, post, (given author).getD config.defaultAuthor, message, parent,
                .utc supply'.nextTime.1, none⟩)
              h (withHash?_of_drawHash hdraw) ⟨⟨_, hrange, rfl⟩, by simp⟩ config password
          simp only [if_true]
          rw [hwrites]
          exact ⟨rfl, hkept, rfl⟩

theorem update_refines (hash password message : RawText) :
    Refines σ (update hash password message) (Ledger.update hash password message) := by
  rintro ⟨store, supply⟩ ⟨l, _⟩ ⟨h, rfl⟩
  rw [update, outcome_bind (outcome_authorize (s := ⟨store, supply⟩) h hash password),
    Ledger.update]
  cases hc : Ledger.authorize hash password l with
  | error fault => exact ⟨rfl, h, rfl⟩
  | ok c =>
    simp only
    rw [outcome_bind (outcome_currentTime _)]
    cases hrange : inRange supply.nextTime.1 with
    | false => exact ⟨rfl, h, rfl⟩
    | true =>
      simp only [if_true]
      rw [outcome_bind_ok (outcome_ask _ _)]
      exact ⟨rfl, h.edit (withHash?_of_authorize hc) message hrange, rfl⟩

theorem delete_refines (hash password : RawText) :
    Refines σ (delete hash password) (Ledger.delete hash password) := by
  rintro ⟨store, supply⟩ ⟨l, _⟩ ⟨h, rfl⟩
  rw [delete, outcome_bind (outcome_authorize (s := ⟨store, supply⟩) h hash password),
    Ledger.delete]
  cases hc : Ledger.authorize hash password l with
  | error fault => exact ⟨rfl, h, rfl⟩
  | ok c =>
    simp only
    rw [outcome_bind_ok (outcome_ask _ _), outcome_bind_ok (outcome_ask _ _),
      outcome_bind_ok (outcome_ask _ _)]
    exact ⟨rfl, h.remove (withHash?_of_authorize hc), rfl⟩

end Operations

end CommentThreads.Store
