/-
CommentThreads.Proofs.Store.Serializability — changes of different comments that are
made at the same time.

* `Change` — a new comment, an edit or a removal, as a job that shares a store.
* `Distinct` — changes of different comments, each new one under a hash of its own that
  no record is under. Two changes may be on one post, so they may change one index.
* `Apart` — and no change answers an answer that was left behind by a root with the hash
  of a new comment. Under these conditions one change cannot notice another.
* `changes_serializable` — then each ends as it would if they had been made one after
  the other, in the order in which they changed the indexes, and the store shows
  the same. No new comment is lost from an index, and none is in it twice.
* `orphan_unserializable` — being distinct is not enough. An answer that was left behind
  still names the hash of its removed root. If this hash is drawn for a new comment, a
  change that answers the answer may come upon that comment half-way, and then it is
  as in no order.
-/
import CommentThreads.Proofs.Store.Crash
import CommentThreads.Proofs.Store.Interleaving

namespace CommentThreads.Store

open Ledger Time Shared

/-! ## Changes -/

/-- A change with its arguments. A new comment comes with the salt that is drawn
for its password. -/
inductive Change
  | create (salt : String) (post message : RawText) (author password parent : Option RawText)
  | update (hash password message : RawText)
  | delete (hash password : RawText)

namespace Change

/-- The change of a store. -/
def action (defaultAuthor : String) : Change → Action Comment
  | .create salt post message author password parent =>
    Store.create ⟨defaultAuthor, salt⟩ post message author password parent
  | .update hash password message => Store.update hash password message
  | .delete hash password => Store.delete hash password

/-- A change is one of the operations. -/
def operation : Change → Operation
  | .create salt post message author password parent =>
    .create salt post message author password parent
  | .update hash password message => .update hash password message
  | .delete hash password => .delete hash password

/-- The comment that is edited or removed. -/
def target? : Change → Option RawText
  | .create .. => none
  | .update hash _ _ | .delete hash _ => some hash

/-- The comment that a new one is said to answer. -/
def parent? : Change → Option RawText
  | .create _ _ _ _ _ parent => given parent
  | .update .. | .delete .. => none

theorem target?_operation (change : Change) : change.operation.target? = change.target? := by
  cases change <;> rfl

section Site

variable {σ : Type} [KeyValue σ]

theorem calls_operation (change : Change) (defaultAuthor : String) (s : Site σ) :
    (change.operation.action defaultAuthor).calls s = (change.action defaultAuthor).calls s := by
  cases change <;> rfl

/-- A change reads the record of a comment while it resolves the parent of a new
one. -/
def Resolves (s : Site σ) (hash : RawText) : Change → Prop
  | .create _ post _ _ _ parent => .get (recordKey hash) ∈ (resolveGiven post parent).calls s
  | .update .. | .delete .. => False

/-- The first hash that is drawn for a new comment. None is drawn if its parent
cannot be resolved. -/
def drawn? (s : Site σ) : Change → Option RawText
  | .create _ post _ _ _ parent =>
    match (resolveGiven post parent).outcome s with
    | (.ok _, s') => some (Text.firstChars Comment.hashLength s'.supply.nextDigits.1)
    | (.error _, _) => none
  | .update .. | .delete .. => none

end Site

end Change

section Apart

variable {σ ι : Type} [KeyValue σ] [Viewed σ]

/-- Changes of different comments, each with what is drawn for it. No record is under
the hash of a new comment, and no change names it. -/
structure Distinct (s : σ) (change : ι → Change) (supply : ι → Supply) : Prop where
  target_distinct : ∀ i k hash,
    (change i).target? = some hash → (change k).target? = some hash → i = k
  target_unread : ∀ i k hash,
    (change i).target? = some hash → ¬(change k).Resolves ⟨s, supply k⟩ hash
  drawn_free : ∀ i hash, (change i).drawn? ⟨s, supply i⟩ = some hash →
    Viewed.valueAt? s (recordKey hash) = none
  drawn_distinct : ∀ i k hash, (change i).drawn? ⟨s, supply i⟩ = some hash →
    (change k).drawn? ⟨s, supply k⟩ = some hash → i = k
  drawn_unnamed : ∀ i k hash, (change i).drawn? ⟨s, supply i⟩ = some hash →
    (change k).target? ≠ some hash ∧ (change k).parent? ≠ some hash

/-- Distinct changes, none of which answers an answer to a removed root whose hash is
drawn again. -/
structure Apart (s : σ) (change : ι → Change) (supply : ι → Supply) : Prop
    extends Distinct s change supply where
  drawn_unrooted : ∀ i k hash, (change i).drawn? ⟨s, supply i⟩ = some hash →
    ∀ c, Holds s c → (change k).parent? = some c.hash → c.parent ≠ some hash

/-! ## What a change reads and writes -/

variable {s : Site σ}

theorem newHash_of_free (attempts : Nat)
    (h : Viewed.valueAt? s.store
      (recordKey (Text.firstChars Comment.hashLength s.supply.nextDigits.1)) = none) :
    (∃ fault s', (newHash (attempts + 1)).outcome s = (.error fault, s') ∧
      (newHash (attempts + 1)).calls s = []) ∨
    (newHash (attempts + 1)).outcome s =
        (.ok (Text.firstChars Comment.hashLength s.supply.nextDigits.1),
          { s with supply := s.supply.nextDigits.2 }) ∧
      (newHash (attempts + 1)).calls s =
        [.get (recordKey (Text.firstChars Comment.hashLength s.supply.nextDigits.1))] := by
  let key := recordKey (Text.firstChars Comment.hashLength s.supply.nextDigits.1)
  let drawn : Site σ := { s with supply := s.supply.nextDigits.2 }
  have hget := outcome_ask_eq (.get key) drawn
  have hcalls := calls_ask_eq (.get key) drawn
  rw [newHash, outcome_bind_ok (outcome_freshHash s), calls_bind_ok (outcome_freshHash s)]
  cases htaken : KeyValue.takes key s.store with
  | true =>
    rw [Call.key, htaken, if_pos rfl, perform_get, h] at hget
    rw [Call.key, htaken, if_pos rfl] at hcalls
    rw [outcome_bind_ok hget, calls_bind_ok hget, hcalls]
    exact .inr ⟨rfl, rfl⟩
  | false =>
    rw [Call.key, htaken] at hget hcalls
    rw [outcome_bind hget, calls_bind_error hget, hcalls]
    exact .inl ⟨_, _, rfl, rfl⟩

/-- Where the first hash that is drawn is free, it is the only one. -/
theorem chooseHash_cases {salt : String} {post message : RawText}
    {author password parent : Option RawText} (hfree : ∀ hash,
      (Change.create salt post message author password parent).drawn? s = some hash →
        Viewed.valueAt? s.store (recordKey hash) = none) :
    (∃ fault s', (chooseHash post parent).outcome s = (.error fault, s') ∧
      (chooseHash post parent).calls s = (resolveGiven post parent).calls s) ∨
    ∃ hash s', (Change.create salt post message author password parent).drawn? s = some hash ∧
      (chooseHash post parent).outcome s = (.ok hash, s') ∧
      (chooseHash post parent).calls s =
        (resolveGiven post parent).calls s ++ [.get (recordKey hash)] := by
  have hreads : Preserves (· = s.store) (resolveGiven post parent) :=
    preserves_resolveGiven post parent
  have hkept := hreads s rfl
  rw [Change.drawn?] at hfree ⊢
  cases hresolve : (resolveGiven post parent).outcome s with
  | mk r s' =>
    rw [chooseHash]
    rw [hresolve] at hkept hfree
    cases r with
    | error fault =>
      rw [outcome_bind hresolve, calls_bind_error hresolve]
      exact .inl ⟨fault, s', rfl, rfl⟩
    | ok resolved =>
      have hnone := hfree _ rfl
      rw [← hkept] at hnone
      rw [outcome_bind_ok hresolve, calls_bind_ok hresolve]
      obtain ⟨fault, s'', houtcome, hcalls⟩ | ⟨houtcome, hcalls⟩ := newHash_of_free 4 hnone
      · exact .inl ⟨fault, s'', houtcome, (congrArg (_ ++ ·) hcalls).trans (List.append_nil _)⟩
      · exact .inr ⟨_, _, rfl, houtcome, congrArg (_ ++ ·) hcalls⟩

/-- A change is about the comment that it edits or removes, or adds. -/
def Change.About (s : Site σ) (change : Change) (hash : RawText) : Prop :=
  change.target? = some hash ∨ change.drawn? s = some hash

/-- A call of a change: it reads a record that the parent is resolved with, or it reads
or writes for what the change is about. -/
def Change.Uses (s : Site σ) (change : Change) (call : Call) : Prop :=
  (∃ hash, change.Resolves s hash ∧ call = .get (recordKey hash)) ∨
    ∃ hash, change.About s hash ∧
      (call = .get (recordKey hash) ∨ call = .get (passwordKey hash) ∨ WritesFor hash call)

theorem uses_create {salt : String} {post message : RawText}
    {author password parent : Option RawText} (defaultAuthor : String)
    (hfree : ∀ hash,
      (Change.create salt post message author password parent).drawn? s = some hash →
        Viewed.valueAt? s.store (recordKey hash) = none)
    {call : Call}
    (hcall : call ∈ (create ⟨defaultAuthor, salt⟩ post message author password parent).calls s) :
    (Change.create salt post message author password parent).Uses s call := by
  have hresolve {call : Call} (hcall : call ∈ (resolveGiven post parent).calls s) :
      (Change.create salt post message author password parent).Uses s call := by
    have hrecords : Makes σ (∃ hash, · = .get (recordKey hash)) (resolveGiven post parent) :=
      makes_resolveGiven (fun hash => ⟨hash, rfl⟩) post parent
    obtain ⟨hash, rfl⟩ := hrecords s call hcall
    exact .inl ⟨hash, hcall, rfl⟩
  obtain ⟨fault, s', hfault, hreads⟩ | ⟨hash, s', hdrawn, hok, hreads⟩ := chooseHash_cases hfree
  · obtain ⟨-, -, hcalls⟩ | ⟨c, s'', writes, houtcome, -⟩ :=
      create_calls ⟨defaultAuthor, salt⟩ post message author password parent s
    · rw [hcalls, hreads] at hcall
      exact hresolve hcall
    · rw [hfault] at houtcome
      cases houtcome
  · have hchoose {call : Call} (hcall : call ∈ (chooseHash post parent).calls s) :
        (Change.create salt post message author password parent).Uses s call := by
      rw [hreads] at hcall
      rcases List.mem_append.mp hcall with hcall | hcall
      · exact hresolve hcall
      · exact .inr ⟨hash, .inr hdrawn, .inl (List.mem_singleton.mp hcall)⟩
    obtain ⟨-, -, hcalls⟩ | ⟨c, s'', writes, houtcome, -, -, hwrote, hcalls⟩ :=
      create_calls ⟨defaultAuthor, salt⟩ post message author password parent s
    · rw [hcalls] at hcall
      exact hchoose hcall
    · rw [hok] at houtcome
      cases houtcome
      rw [hcalls] at hcall
      rcases List.mem_append.mp hcall with hcall | hcall
      · exact hchoose hcall
      · have hcall := hwrote.isPrefix.subset hcall
        exact .inr ⟨_, .inr hdrawn, .inr (.inr (writesFor_of_created hcall))⟩

omit [Viewed σ] in
/-- A change that was authorized, or was to be, is about the comment that it targets. -/
theorem uses_authorized {change : Change} {hash : RawText} (htarget : change.target? = some hash)
    (password : RawText) {writes : List Call} (hwrites : ∀ call ∈ writes, WritesFor hash call)
    {call : Call} (hcall : call ∈ (authorize hash password).calls s ++ writes) :
    change.Uses s call := by
  have hreads : Makes σ (fun c => c = .get (recordKey hash) ∨ c = .get (passwordKey hash) ∨
      WritesFor hash c) (authorize hash password) :=
    makes_authorize (.inl rfl) (.inr (.inl rfl)) password
  refine .inr ⟨hash, .inl htarget, ?_⟩
  rcases List.mem_append.mp hcall with hcall | hcall
  · exact hreads s call hcall
  · exact .inr (.inr (hwrites call hcall))

/-- Besides the records that it resolves a parent with, a change reads and writes
only what it is about. -/
theorem Change.uses_of_calls {change : Change} (defaultAuthor : String)
    (hfree : ∀ hash, change.drawn? s = some hash →
      Viewed.valueAt? s.store (recordKey hash) = none)
    {call : Call} (hcall : call ∈ (change.action defaultAuthor).calls s) : change.Uses s call := by
  cases change with
  | create salt post message author password parent => exact uses_create defaultAuthor hfree hcall
  | update hash password message =>
    rw [Change.action] at hcall
    obtain ⟨fault, -, hcalls⟩ | ⟨c, s', time, -, -, -, hcalls⟩ :=
      update_calls hash password message s
    · refine uses_authorized rfl password (List.forall_mem_nil _) ?_
      rwa [List.append_nil, ← hcalls]
    · rw [hcalls] at hcall
      refine uses_authorized rfl password (fun call hcall => ?_) hcall
      cases List.mem_singleton.mp hcall
      exact .setRecord _
  | delete hash password =>
    rw [Change.action] at hcall
    obtain ⟨fault, -, hcalls⟩ | ⟨c, s', -, -, hcalls⟩ := delete_calls hash password s
    · refine uses_authorized rfl password (List.forall_mem_nil _) ?_
      rwa [List.append_nil, ← hcalls]
    · rw [hcalls] at hcall
      exact uses_authorized rfl password (fun call hcall => writesFor_of_removed hcall) hcall

/-- A key of a comment: that of its record, or that of its password. -/
def IsKeyOf (hash key : RawText) : Prop := key = recordKey hash ∨ key = passwordKey hash

theorem IsKeyOf.eq_of_recordKey {hash other : RawText} (h : IsKeyOf hash (recordKey other)) :
    other = hash := by
  obtain h | h := h
  · exact recordKey_inj.mp h
  · exact absurd h (recordKey_ne_passwordKey other hash)

theorem IsKeyOf.unique {hash other key : RawText} (h : IsKeyOf hash key) (h' : IsKeyOf other key) :
    hash = other := by
  obtain rfl | rfl := h
  · exact h'.eq_of_recordKey
  · obtain h' | h' := h'
    · exact absurd h' (passwordKey_ne_recordKey hash other)
    · exact passwordKey_inj.mp h'

theorem IsKeyOf.ne_indexKey {hash key : RawText} (h : IsKeyOf hash key) (post : RawText) :
    key ≠ indexKey post := by
  obtain rfl | rfl := h
  · exact recordKey_ne_indexKey hash post
  · exact passwordKey_ne_indexKey hash post

omit [Viewed σ] in
/-- A key that a change uses: of a record that it only reads, of what it is about, or
of an index that it changes. -/
theorem Change.Uses.key {change : Change} {call : Call} (h : change.Uses s call) :
    (∃ hash, change.Resolves s hash ∧ call.IsRead ∧ call.key = recordKey hash) ∨
    (∃ hash, change.About s hash ∧ IsKeyOf hash call.key) ∨
    (call.changesIndex = true ∧ ∃ post, call.key = indexKey post) := by
  obtain ⟨hash, hresolves, rfl⟩ | ⟨hash, habout, rfl | rfl | hwrite⟩ := h
  · exact .inl ⟨hash, hresolves, trivial, rfl⟩
  · exact .inr (.inl ⟨hash, habout, .inl rfl⟩)
  · exact .inr (.inl ⟨hash, habout, .inr rfl⟩)
  · cases hwrite with
    | setRecord value => exact .inr (.inl ⟨hash, habout, .inl rfl⟩)
    | setPassword value => exact .inr (.inl ⟨hash, habout, .inr rfl⟩)
    | prepend post => exact .inr (.inr ⟨rfl, post, rfl⟩)
    | remove post => exact .inr (.inr ⟨rfl, post, rfl⟩)
    | deleteRecord => exact .inr (.inl ⟨hash, habout, .inl rfl⟩)
    | deletePassword => exact .inr (.inl ⟨hash, habout, .inr rfl⟩)

theorem holds_of_findOn {s s' : Site σ} (hs : Coherent s.store) {post hash : RawText} {c : Comment}
    (h : (findOn post hash).outcome s = (.ok c, s')) : Holds s.store c ∧ c.hash = hash := by
  rw [findOn] at h
  obtain ⟨-, hfind | hfind⟩ | ⟨d, hd, hhash, hfind⟩ := hs.find_eq hash
  · rw [outcome_bind_ok hfind] at h
    cases h
  · rw [outcome_bind hfind] at h
    cases h
  · rw [outcome_bind_ok hfind] at h
    simp only at h
    split at h
    · cases h
      exact ⟨hd, hhash⟩
    · cases h

/-- A change comes upon the record of the comment that it names as its parent, and of
the one that this one names. -/
theorem named_of_resolves (hs : Coherent s.store) {change : Change} {hash : RawText}
    (h : change.Resolves s hash) :
    change.parent? = some hash ∨
      ∃ c, Holds s.store c ∧ change.parent? = some c.hash ∧ c.parent = some hash := by
  cases change with
  | update => exact absurd h id
  | delete => exact absurd h id
  | create salt post message author password parent =>
    have hread : .get (recordKey hash) ∈ (resolveGiven post parent).calls s := h
    have hfindOn {named : RawText} {s' : Site σ}
        (hmem : .get (recordKey hash) ∈ (findOn post named).calls s') : hash = named := by
      have hone : Makes σ (· = .get (recordKey named)) (findOn post named) := by
        exact makes_findOn (by rfl) post
      have hkey := hone s' _ hmem
      simpa using hkey
    rw [resolveGiven] at hread
    rw [Change.parent?]
    cases hgiven : given parent with
    | none =>
      rw [hgiven] at hread
      cases hread
    | some named =>
      simp only [hgiven] at hread
      obtain hresolve | ⟨root, s', -, hnone⟩ := mem_calls_bind hread
      · rw [resolveParent] at hresolve
        obtain hfind | ⟨c, s', hfound, hroot⟩ := mem_calls_bind hresolve
        · exact .inl (congrArg some (hfindOn hfind).symm)
        · obtain ⟨hc, rfl⟩ := holds_of_findOn hs hfound
          refine .inr ⟨c, hc, rfl, ?_⟩
          split at hroot
          · cases hroot
          · next hanswer =>
            obtain hfind | ⟨root, s'', -, hnone⟩ := mem_calls_bind hroot
            · obtain rfl := hfindOn hfind
              cases hparent : c.parent with
              | none => simp [Comment.isRoot, hparent] at hanswer
              | some root => rfl
            · cases hnone
      · cases hnone

section Independence

variable {s : σ} {change : ι → Change} {supply : ι → Supply} (h : Apart s change supply)
include h

omit h in
theorem Distinct.about_distinct (h : Distinct s change supply) {i k : ι} {hash : RawText}
    (hi : (change i).About ⟨s, supply i⟩ hash) (hk : (change k).About ⟨s, supply k⟩ hash) :
    i = k := by
  rcases hi with hi | hi
  · rcases hk with hk | hk
    · exact h.target_distinct i k hash hi hk
    · exact absurd hi (h.drawn_unnamed k i hash hk).1
  · rcases hk with hk | hk
    · exact absurd hk (h.drawn_unnamed i k hash hi).1
    · exact h.drawn_distinct i k hash hi hk

/-- No other change comes upon the record of what a change is about. -/
theorem Apart.about_unread (hs : Coherent s) {i : ι} {hash : RawText}
    (hi : (change i).About ⟨s, supply i⟩ hash) (k : ι) :
    ¬(change k).Resolves ⟨s, supply k⟩ hash := by
  rcases hi with hi | hi
  · exact h.target_unread i k hash hi
  · intro hk
    obtain hnamed | ⟨c, hc, hnamed, hparent⟩ := named_of_resolves (s := ⟨s, supply k⟩) hs hk
    · exact (h.drawn_unnamed i k hash hi).2 hnamed
    · exact h.drawn_unrooted i k hash hi c hc hnamed hparent

/-- Changes of different comments do not disturb each other. -/
theorem Apart.independent (hs : Coherent s) (defaultAuthor : String) :
    Independent fun i => ((change i).action defaultAuthor).calls ⟨s, supply i⟩ := by
  have huses {i : ι} {c : Call} (hc : c ∈ ((change i).action defaultAuthor).calls ⟨s, supply i⟩) :
      (change i).Uses ⟨s, supply i⟩ c := (change i).uses_of_calls defaultAuthor (h.drawn_free i) hc
  constructor
  · intro i c hc
    obtain ⟨hash, -, rfl⟩ | ⟨hash, -, rfl | rfl | hwrite⟩ := huses hc
    · exact .inl trivial
    · exact .inl trivial
    · exact .inl trivial
    · exact .inr ⟨hash, hwrite⟩
  · intro i k hne c hc d hd hkey
    obtain ⟨a, ha, hread, hc⟩ | ⟨a, ha, hc⟩ | ⟨hchange, post, hc⟩ := (huses hc).key
    · obtain ⟨b, hb, hread', hd⟩ | ⟨b, hb, hd⟩ | ⟨-, post, hd⟩ := (huses hd).key
      · exact .inl ⟨hread, hread'⟩
      · -- what the one reads for a parent is what the other is about
        rw [← hkey, hc] at hd
        exact absurd (hd.eq_of_recordKey ▸ ha) (h.about_unread hs hb i)
      · rw [hc, hd] at hkey
        exact absurd hkey (recordKey_ne_indexKey a post)
    · obtain ⟨b, hb, -, hd⟩ | ⟨b, hb, hd⟩ | ⟨-, post, hd⟩ := (huses hd).key
      · rw [hkey, hd] at hc
        exact absurd (hc.eq_of_recordKey ▸ hb) (h.about_unread hs ha k)
      · -- both are about one comment
        rw [← hkey] at hd
        exact absurd (h.about_distinct ha (hc.unique hd ▸ hb)) hne
      · exact absurd (hkey.trans hd) (hc.ne_indexKey post)
    · obtain ⟨b, hb, -, hd⟩ | ⟨b, hb, hd⟩ | ⟨hchange', -⟩ := (huses hd).key
      · rw [hc, hd] at hkey
        exact absurd hkey (indexKey_ne_recordKey post b)
      · exact absurd (hkey.symm.trans hc) (hd.ne_indexKey post)
      · exact .inr ⟨hchange, hchange'⟩

end Independence

/-- An operation changes an index once, or not at all. -/
theorem indexChanges_le_one (defaultAuthor : String) (op : Operation) (s : Site σ) :
    (((op.action defaultAuthor).calls s).filter Call.changesIndex).length ≤ 1 := by
  obtain ⟨reads, writes, hreads, hcalls, hwrites⟩ := writes_of_operation defaultAuthor op s
  have hnone : reads.filter Call.changesIndex = [] :=
    List.filter_eq_nil_iff.mpr fun c hc => by simp [Call.changesIndex_of_isRead (hreads c hc)]
  rw [hcalls, List.filter_append, hnone]
  cases hwrites with
  | nothing => exact Nat.zero_le 1
  | @new _ _ _ _ _ _ c lock _ _ hwrites =>
    refine Nat.le_trans (hwrites.sublist.filter Call.changesIndex).length_le ?_
    cases lock <;> exact Nat.le_refl 1
  | edit value => exact Nat.zero_le 1
  | removal post => exact Nat.le_refl 1

/-- What is removed from an index is a comment that an operation targets. -/
theorem target_of_remove {op : Operation} {defaultAuthor : String} {s : Site σ} {key hash : RawText}
    (h : .remove key hash ∈ (op.action defaultAuthor).calls s) : op.target? = some hash := by
  obtain ⟨reads, writes, hreads, hcalls, hwrites⟩ := writes_of_operation defaultAuthor op s
  rw [hcalls] at h
  rcases List.mem_append.mp h with h | h
  · exact absurd (hreads _ h) id
  · cases hwrites with
    | nothing => cases h
    | new _ hwrites =>
      have hcall := hwrites.subset h
      simp [newCalls] at hcall
    | edit value => simp at h
    | removal post =>
      cases writesFor_of_removed h
      rfl

end Apart

/-! ## Changes that are made at the same time -/

section Begun

variable {σ ι : Type} [KeyValue σ]

/-- Changes that are about to begin. -/
def begun (defaultAuthor : String) (change : ι → Change) (supply : ι → Supply) (s : σ) :
    Shared σ ι (Except Fault Comment) :=
  ⟨s, fun i => ⟨ExceptT.run ((change i).action defaultAuthor), supply i⟩, []⟩

/-- What a change would do alone, an operation does. -/
theorem alone_begun (defaultAuthor : String) (change : ι → Change) (supply : ι → Supply) (s : σ)
    (i : ι) : (begun defaultAuthor change supply s).alone i =
      ((change i).operation.action defaultAuthor).calls ⟨s, supply i⟩ :=
  ((change i).calls_operation defaultAuthor ⟨s, supply i⟩).symm

variable [Viewed σ] [DecidableEq ι]

/-- Changes that are made in turn keep a store coherent. -/
theorem coherent_inTurn (defaultAuthor : String) (change : ι → Change) (order : List ι)
    {sh : Shared σ ι (Except Fault Comment)} (hs : Coherent sh.store)
    (hjobs : ∀ i, (∃ a, (sh.job i).program = .done a) ∨
      (sh.job i).program = ExceptT.run ((change i).action defaultAuthor)) :
    Coherent (sh.inTurn order).store := by
  induction order generalizing sh with
  | nil => exact hs
  | cons i rest ih =>
    have hstore : Coherent (sh.finish i).store := by
      obtain ⟨a, hdone⟩ | hbegun := hjobs i
      · rw [finish_of_done hdone]
        exact hs
      · let site : Site σ := ⟨sh.store, (sh.job i).supply⟩
        have hend := (coherent_operation defaultAuthor (change i).operation (s := site) hs).finish
        rw [Change.calls_operation, ← store_outcome] at hend
        rw [finish, hbegun]
        exact hend
    refine ih hstore fun k => ?_
    by_cases hk : k = i
    · subst hk
      exact .inl ⟨_, congrArg Job.program (put_self k _ sh.job)⟩
    · have hjob : (sh.finish i).job k = sh.job k := put_of_ne hk _ _
      rw [hjob]
      exact hjobs k

/-- An entry in an index stays until it is removed. -/
theorem listed_of_prepend {calls : List Call} (hproper : ∀ c ∈ calls, c.Proper)
    {post hash : RawText} (htaken : ∀ s : σ, KeyValue.takes (indexKey post) s = true)
    (hprepend : .prepend (indexKey post) hash ∈ calls)
    (hkept : .remove (indexKey post) hash ∉ calls) (s : σ) :
    hash ∈ Viewed.listAt (storeAfter calls s) (indexKey post) := by
  have hstays {rest : List Call} (hrest : ∀ c ∈ rest, c ∈ calls) {s : σ}
      (h : hash ∈ Viewed.listAt s (indexKey post)) :
      hash ∈ Viewed.listAt (storeAfter rest s) (indexKey post) := by
    refine storeAfter_induction (fun s => hash ∈ Viewed.listAt s (indexKey post))
      (fun c hc s h => ?_) h
    rcases hproper c (hrest c hc) with hread | ⟨other, hwrite⟩
    · rw [perform_read hread]
      exact h
    · cases hwrite with
      | setRecord value => simpa using h
      | setPassword value => simpa using h
      | prepend post' =>
        obtain htakes | hsame := taken_or_same (.prepend (indexKey post') other) s
        · rw [Viewed.listAt_prepend (indexKey post') _ _ _ htakes]
          split
          · next hkey => exact List.mem_cons_of_mem _ (hkey ▸ h)
          · exact h
        · rw [hsame]
          exact h
      | remove post' =>
        rw [Viewed.listAt_remove]
        split
        · next hkey =>
          have hne : hash ≠ other := by
            rintro rfl
            exact hkept (hkey ▸ hrest _ hc)
          exact List.mem_filter.mpr ⟨hkey ▸ h, decide_eq_true hne⟩
        · exact h
      | deleteRecord => simpa using h
      | deletePassword => simpa using h
  obtain ⟨before, rest, hcalls⟩ := List.append_of_mem hprepend
  rw [hcalls, storeAfter_append, storeAfter_cons]
  refine hstays (fun c hc => ?_) (by simp [htaken])
  rw [hcalls]
  exact List.mem_append_right _ (List.mem_cons_of_mem _ hc)

/-- A new comment that is stored has been put in front of its index, with the hash
that was drawn for it. -/
theorem drawn_of_created {change : Change} (hcreate : change.target? = none)
    {defaultAuthor : String} {s : Site σ} (hfree : ∀ hash, change.drawn? s = some hash →
      Viewed.valueAt? s.store (recordKey hash) = none) {c : Comment}
    (h : ((change.action defaultAuthor).outcome s).1 = .ok c) :
    change.drawn? s = some c.hash ∧
      .prepend (indexKey c.post) c.hash ∈ (change.action defaultAuthor).calls s := by
  cases change with
  | update => cases hcreate
  | delete => cases hcreate
  | create salt post message author password parent =>
    rw [Change.action] at h ⊢
    obtain ⟨fault, hfault, -⟩ | ⟨d, s', writes, houtcome, -, -, hwrote, hcalls⟩ :=
      create_calls ⟨defaultAuthor, salt⟩ post message author password parent s
    · rw [hfault] at h
      cases h
    · rw [h] at hwrote
      obtain ⟨hend, rfl⟩ := hwrote.of_ok
      have hd : d = c := by
        cases hlock : lockFor salt password with
        | ok lock =>
          rw [hlock] at hend
          cases hend
          rfl
        | error fault =>
          rw [hlock] at hend
          cases hend
      subst hd
      obtain ⟨fault, s'', hfault, -⟩ | ⟨hash, s'', hdrawn, hok, -⟩ := chooseHash_cases hfree
      · rw [hfault] at houtcome
        cases houtcome
      · rw [hok] at houtcome
        cases houtcome
        refine ⟨hdrawn, ?_⟩
        rw [hcalls]
        exact List.mem_append_right _ (by simp [newCalls])

/-- Changes of different comments, in a store that operations can lead to, come to an
end after every schedule, and as if they had been made one after the other. The order
is that of their changes of the indexes; those that change none may come anywhere. Each
gives the same answer, and the store shows the same. Every index holds a hash once, and
that of each new comment. -/
theorem changes_serializable (defaultAuthor : String) {s : σ} (hs : Reachable s) {jobs : List ι}
    (hjobs : jobs.Nodup) (hall : ∀ i, i ∈ jobs) (change : ι → Change) (supply : ι → Supply)
    (hapart : Apart s change supply) (schedule : List ι) :
    let start := begun defaultAuthor change supply s
    let sh := start.after schedule
    (∃ later, (sh.after later).Finished) ∧
    (sh.Finished →
      (∃ order, sh.InOrder order) ∧
      (∀ order, sh.InOrder order →
        sh.job = (start.inTurn order).job ∧ SameView sh.store (start.inTurn order).store) ∧
      (∀ post, (Viewed.listAt sh.store (indexKey post)).Nodup) ∧
      ∀ i c, (change i).target? = none → (sh.job i).program = .done (.ok c) →
        c.hash ∈ Viewed.listAt sh.store (indexKey c.post)) := by
  intro start sh
  refine ⟨exists_finished hall sh, fun hdone => ?_⟩
  have hind : Independent start.alone := hapart.independent hs.coherent defaultAuthor
  have htidy : Tidy start.store := ⟨hs.coherent.valueAt?_indexKey, hs.coherent.listKeys⟩
  have hfollows : Follows start sh := follows_after hind htidy rfl schedule
  have hsame (order : List ι) (horder : sh.InOrder order) :=
    serializable hind htidy rfl schedule hdone horder
  obtain ⟨order, horder⟩ : ∃ order, sh.InOrder order :=
    exists_inOrder (hfollows.nodup_indexChanges hdone fun i => by
      rw [alone_begun]
      exact indexChanges_le_one defaultAuthor (change i).operation ⟨s, supply i⟩) hjobs hall
  refine ⟨⟨order, horder⟩, hsame, fun post => ?_, fun i c hcreate hok => ?_⟩
  · rw [(hsame order horder).2.list]
    have hcoherent : Coherent (start.inTurn order).store :=
      coherent_inTurn defaultAuthor change order hs.coherent fun i => .inr rfl
    exact hcoherent.index_nodup post
  · obtain ⟨hcalls, hjob⟩ := hfollows.done hok
    have houtcome : (((change i).action defaultAuthor).outcome ⟨s, supply i⟩).1 = .ok c := by
      rw [hjob] at hok
      exact Program.done.inj hok
    obtain ⟨hdrawn, hprepend⟩ := drawn_of_created hcreate (hapart.drawn_free i) houtcome
    have hmade : .prepend (indexKey c.post) c.hash ∈ sh.madeBy i := hcalls ▸ hprepend
    rw [hfollows.store]
    refine listed_of_prepend (hfollows.proper hind) (taken_of_mem_calls hprepend)
      (List.mem_map.mpr ⟨_, mem_madeBy.mp hmade, rfl⟩) (fun hremove => ?_) start.store
    obtain ⟨p, hp, hcall⟩ := List.mem_map.mp hremove
    have halone : .remove (indexKey c.post) c.hash ∈ start.alone p.1 :=
      hcall ▸ hfollows.mem_alone (mem_madeBy.mpr hp)
    rw [alone_begun] at halone
    have htarget : (change p.1).target? = some c.hash := by
      rw [← (change p.1).target?_operation]
      exact target_of_remove halone
    exact (hapart.drawn_unnamed i p.1 c.hash hdrawn).1 htarget

end Begun

/-! ## An answer and a new thread -/

section Creations

variable {ι : Type}

/-- New comments are distinct, if their hashes are, and are not in use. -/
theorem distinct_of_drawn {s : Memory} {change : ι → Change} {supply : ι → Supply}
    (digits : ι → String) (htarget : ∀ i, (change i).target? = none)
    (hdrawn : ∀ i, ∀ hash ∈ (change i).drawn? ⟨s, supply i⟩, hash = digits i)
    (hfree : ∀ i, Viewed.valueAt? s (recordKey (digits i)) = none)
    (hdigits : ∀ i k, digits i = digits k → i = k)
    (hparent : ∀ i k, (change k).parent? ≠ some ↑(digits i)) : Distinct s change supply := by
  constructor
  case target_distinct =>
    intro i k hash hi
    rw [htarget] at hi
    cases hi
  case target_unread =>
    intro i k hash hi
    rw [htarget] at hi
    cases hi
  case drawn_free =>
    intro i hash hi
    rw [hdrawn i hash hi]
    exact hfree i
  case drawn_distinct =>
    intro i k hash hi hk
    exact hdigits i k (RawText.plain.inj ((hdrawn i hash hi).symm.trans (hdrawn k hash hk)))
  case drawn_unnamed =>
    intro i k hash hi
    rw [htarget, hdrawn i hash hi]
    exact ⟨(Option.some_ne_none _).symm, hparent i k⟩

/-- Jobs whose values can all be seen are done. -/
theorem finished_of_values {σ α : Type} {sh : Shared σ ι α}
    (h : ∀ i, (sh.job i).program.value?.isSome = true) : sh.Finished := by
  intro i
  obtain ⟨a, ha⟩ := Option.isSome_iff_exists.mp (h i)
  exact ⟨a, Program.eq_done_of_value? ha⟩

end Creations

def helloCreation : Operation := .create "" "intro" "Hello" none none none

/-- A store with one thread, and nothing else. -/
def helloStore : Memory :=
  (attempted "Anonymous" [⟨helloCreation, none⟩] ⟨Memory.empty, stillSupply "0a1b2c3d"⟩).store

theorem reachable_helloStore : Reachable helloStore :=
  ⟨"Anonymous", ⟨Memory.empty, stillSupply "0a1b2c3d"⟩, [⟨helloCreation, none⟩],
    ⟨fun _ => rfl, fun _ => rfl⟩, rfl⟩

/-- An answer to the thread, and another thread on the same post. -/
def answerAndThread : Bool → Change
  | false => .create "" "intro" "Hi" none none (some "0a1b2c3d")
  | true => .create "" "intro" "Again" none none none

def digitsOf : Bool → String
  | false => "4e5f6071"
  | true => "8293a4b5"

/-- The comment that the store holds is a root. -/
theorem parent_helloStore {c : Comment} (hc : Holds helloStore c) (hhash : c.hash = "0a1b2c3d") :
    c.parent = none := by
  have hfind := congrArg (·.1.toOption.join) (hc.find_eq (s := ⟨helloStore, stillSupply ""⟩))
  have hfound : ((find "0a1b2c3d").outcome ⟨helloStore, stillSupply ""⟩).1.toOption.join =
      some ⟨"0a1b2c3d", "intro", "Anonymous", "Hello", none, .utc 0, none⟩ := by decide +kernel
  rw [hhash] at hfind
  rw [← Option.some.inj (hfound.symm.trans hfind)]

theorem apart_answerAndThread :
    Apart helloStore answerAndThread fun i => stillSupply (digitsOf i) where
  toDistinct := by
    have hnone : ∀ i,
        (Viewed.valueAt? helloStore (recordKey (digitsOf i))).isNone = true := by decide +kernel
    exact distinct_of_drawn digitsOf (by decide) (by decide +kernel)
      (fun i => Option.isNone_iff_eq_none.mp (hnone i)) (by decide) (by decide +kernel)
  drawn_unrooted := by
    intro i k hash _ c hc hnamed
    have hparent : ∀ k, ∀ named ∈ (answerAndThread k).parent?, named = "0a1b2c3d" := by
      decide +kernel
    rw [parent_helloStore hc (hparent k c.hash hnamed)]
    exact (Option.some_ne_none hash).symm

/-- The answer draws its hash first and comes into the index last. -/
theorem changes_serializable_answer :
    let start := begun "Anonymous" answerAndThread (fun i => stillSupply (digitsOf i)) helloStore
    let sh := start.after [false, true, false, true, false, true, true, false, false, true, false]
    Reachable helloStore ∧ Apart helloStore answerAndThread (fun i => stillSupply (digitsOf i)) ∧
      sh.Finished ∧ sh.InOrder [true, false] ∧
      SameView sh.store (start.inTurn [true, false]).store ∧
      sh.store.listAt (indexKey "intro") =
        (["4e5f6071", "8293a4b5", "0a1b2c3d"] : List RawText) := by
  intro start sh
  have hdone : sh.Finished := finished_of_values (by decide +kernel)
  have horder : sh.InOrder [true, false] := by
    refine ⟨by decide, by decide, ?_⟩
    have hchanges : sh.indexChanges.map Prod.fst = [true, false] := by decide +kernel
    exact hchanges ▸ List.Sublist.refl _
  obtain ⟨-, hends⟩ := changes_serializable "Anonymous" reachable_helloStore
    (by decide : [true, false].Nodup) (by decide) answerAndThread
    (fun i => stillSupply (digitsOf i)) apart_answerAndThread
    [false, true, false, true, false, true, true, false, false, true, false]
  obtain ⟨-, hsame, -⟩ := hends hdone
  exact ⟨reachable_helloStore, apart_answerAndThread, hdone, horder,
    (hsame [true, false] horder).2, by decide +kernel⟩

/-! ## An answer to an answer that was left behind -/

/-- A root with a password, and an answer to it. -/
def answeredRoot : List Operation :=
  [.create "$2b$04$abcdefghijklmnopqrstuu" "intro" "Hello" none (some "secret") none,
    .create "" "intro" "Hi" none none (some "0a1b2c3d")]

def answeredStart : Site Memory :=
  ⟨Memory.empty, ⟨fun n => if n = 0 then "0a1b2c3d" else "4e5f6071", fun _ => 0, 0, 0⟩⟩

/-- The store after the root was removed. -/
def orphanStore : Memory :=
  storeAfter (removalCalls "intro" "0a1b2c3d") (run "Anonymous" answeredRoot answeredStart).2.store

/-- The removal needs no hash to be computed: a root is opened by the password that it
was created with. -/
theorem reachable_orphanStore : Reachable orphanStore := by
  let root : Comment := ⟨"0a1b2c3d", "intro", "Anonymous", "Hello", none, .utc 0, none⟩
  have hlive : (⟨root, "$2b$04$abcdefghijklmnopqrstuu", some "secret"⟩ : Creation) ∈
      live (run "Anonymous" answeredRoot answeredStart).1 := by decide +kernel
  cases hrun : run "Anonymous" answeredRoot answeredStart with
  | mk log site =>
    rw [hrun] at hlive
    have hauthorized : ((authorize root.hash "secret").outcome site).1 = .ok root :=
      authorized_of_live hrun hlive rfl (by decide)
    have hreachable : Reachable site.store :=
      ⟨"Anonymous", answeredStart, answeredRoot.map (⟨·, none⟩), ⟨fun _ => rfl, fun _ => rfl⟩,
        by rw [attempted_run, hrun]⟩
    have hok := hreachable.coherent.authorized_again hauthorized site.supply
    have hremoved : ((delete root.hash "secret").outcome site).2.store =
        storeAfter (removalCalls root.post root.hash) site.store := by
      rw [store_outcome, (delete_of_authorized hok rfl).2, storeAfter_append,
        storeAfter_reads (reads_authorize root.hash "secret" site)]
    refine ⟨"Anonymous", answeredStart,
      (answeredRoot ++ [Operation.delete root.hash "secret"]).map (⟨·, none⟩),
      ⟨fun _ => rfl, fun _ => rfl⟩, ?_⟩
    rw [attempted_run, run_append, orphanStore, hrun]
    exact hremoved

/-- An answer to the answer, and another thread on the same post. -/
def lateAnswerAndThread : Bool → Change
  | false => .create "" "intro" "Late" none none (some "4e5f6071")
  | true => .create "" "intro" "Again" none none none

/-- The hash of the removed root is drawn again. -/
def redrawnDigits : Bool → String
  | false => "8293a4b5"
  | true => "0a1b2c3d"

theorem redrawnDigits_free (i : Bool) :
    Viewed.valueAt? orphanStore (recordKey (redrawnDigits i)) = none := by
  have hnone : ∀ i, (Viewed.valueAt? orphanStore (recordKey (redrawnDigits i))).isNone = true := by
    decide +kernel
  exact Option.isNone_iff_eq_none.mp (hnone i)

/-- The two come in one of two orders. -/
theorem eq_of_order {order : List Bool} (hnodup : order.Nodup) (hall : ∀ i, i ∈ order) :
    order = [false, true] ∨ order = [true, false] := by
  have hperm : order.Perm [false, true] :=
    (List.perm_ext_iff_of_nodup hnodup (by decide)).mpr fun i => by cases i <;> simp [hall]
  match order, hperm.length_eq with
  | [i, k], _ => cases i <;> cases k <;> simp at hnodup ⊢

/-- The answer finds its root while that is not yet in the index. Had it been made
first, it would have found none, and had it been made last, it would stand in front
of it. -/
theorem orphan_unserializable :
    let start := begun "Anonymous" lateAnswerAndThread
      (fun i => stillSupply (redrawnDigits i)) orphanStore
    let sh := start.after
      [true, true, true, true, false, false, false, false, false, false, false, true]
    Reachable orphanStore ∧
      Distinct orphanStore lateAnswerAndThread (fun i => stillSupply (redrawnDigits i)) ∧
      (∀ i, Viewed.valueAt? orphanStore (recordKey (redrawnDigits i)) = none) ∧
      sh.Finished ∧ sh.InOrder [false, true] ∧
      ∀ order : List Bool, order.Nodup → (∀ i, i ∈ order) →
        ¬(sh.job = (start.inTurn order).job ∧ SameView sh.store (start.inTurn order).store) := by
  intro start sh
  refine ⟨reachable_orphanStore, distinct_of_drawn redrawnDigits (by decide)
    (by decide +kernel) redrawnDigits_free (by decide) (by decide +kernel), redrawnDigits_free,
    finished_of_values (by decide +kernel), ⟨by decide, by decide, ?_⟩, ?_⟩
  · have hchanges : sh.indexChanges.map Prod.fst = [false, true] := by decide +kernel
    exact hchanges ▸ List.Sublist.refl _
  · rintro order hnodup hall ⟨hjob, hview⟩
    obtain rfl | rfl := eq_of_order hnodup hall
    · -- made first, the answer finds no root
      have hfound : ((sh.job false).program.value?.bind Except.toOption).isSome = true := by
        decide +kernel
      have hlost : (((start.inTurn [false, true]).job false).program.value?.bind
          Except.toOption).isSome = false := by decide +kernel
      rw [hjob, hlost] at hfound
      cases hfound
    · have hlist := hview.list (indexKey "intro")
      have hleft : Viewed.listAt sh.store (indexKey "intro") =
          (["0a1b2c3d", "8293a4b5", "4e5f6071"] : List RawText) := by decide +kernel
      have hright : Viewed.listAt (start.inTurn [true, false]).store (indexKey "intro") =
          (["8293a4b5", "0a1b2c3d", "4e5f6071"] : List RawText) := by decide +kernel
      rw [hleft, hright] at hlist
      exact absurd hlist (by decide)

end CommentThreads.Store
