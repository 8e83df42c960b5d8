/-
CommentThreads.Proofs.Store.Interchange — a store over documents stands in for
one in memory, and the other way round, where the keys can be encoded.

* `run_sameView` — a program ends alike on two stores that show the same, if both
  take the keys of its calls and no call overwrites a list with a value or a value
  with a list.
* `Keyed` — the texts that keys are made of can be encoded. Where that is so of the
  comments that are kept and of an operation, it is so of every key of its calls
  (`isPlain_of_mem_calls`) and of the comments after it (`keyed_onLedger`).
* `interchangeable` — calls that use no key in both ways are answered alike, and so
  is every operation on comments. `torn_hash_told_apart` — a hash that cannot be
  encoded is one that no comment has for the one store, and no key for the other.
-/
import CommentThreads.Proofs.Store.Crash
import CommentThreads.Proofs.Store.Threads
import CommentThreads.Proofs.Store.Tidy

namespace CommentThreads.Store

open Ledger Text

/-! ## Programs on stores that show the same -/

section SameSite

variable {σ τ α : Type} [KeyValue σ] [Viewed σ] [TakesAll σ] [KeyValue τ] [Viewed τ]

/-- Two sites with stores that show the same, where the same is drawn. -/
structure SameSite (s : Site σ) (t : Site τ) : Prop where
  store : SameView s.store t.store
  supply : s.supply = t.supply

/-- A program ends alike on two stores that show the same, if its calls are of a kind
that fits the one store, whatever calls of that kind have made of it, and whose keys the
other store takes. -/
theorem run_sameView (kind : Call → Prop) (Inv : σ → Prop)
    (hfits : ∀ c s, kind c → Inv s → c.Fits s)
    (hstep : ∀ c s, kind c → Inv s → Inv (KeyValue.perform c s).2)
    (htakes : ∀ c (t : τ), kind c → KeyValue.takes c.key t = true) (p : Program α) {s : Site σ}
    {t : Site τ} (hcalls : ∀ c ∈ p.calls s, kind c) (hinv : Inv s.store) (h : SameSite s t) :
    (p.run s).1 = (p.run t).1 ∧ SameSite (p.run s).2 (p.run t).2 := by
  induction p generalizing s t with
  | done a => exact ⟨rfl, h⟩
  | call c next ih =>
    have hs := TakesAll.takes_all c.key s.store
    simp only [Program.calls, hs, if_true] at hcalls
    have hc := hcalls c List.mem_cons_self
    have ht := htakes c t.store hc
    obtain ⟨hanswer, hafter⟩ := sameView_perform h.store (hfits c s.store hc hinv) hs ht
    simp only [Program.run, Site.request, hs, ht, if_true]
    have hlater := ih (some (s.perform c).1) (fun d hd => hcalls d (List.mem_cons_of_mem c hd))
      (hstep c s.store hc hinv) (t := (t.perform c).2) ⟨hafter, h.supply⟩
    have hsame : (s.perform c).1 = (t.perform c).1 := hanswer
    rw [← hsame]
    exact hlater
  | draw next ih =>
    simp only [Program.run, ← h.supply]
    exact ih _ hcalls hinv ⟨h.store, rfl⟩
  | readClock next ih =>
    simp only [Program.run, ← h.supply]
    exact ih _ hcalls hinv ⟨h.store, rfl⟩

end SameSite

/-! ## Calls that use each key in one way -/

namespace Call

/-- A call that takes its key to hold a value. -/
def UsesValue : Call → Prop
  | .get _ | .set _ _ => True
  | _ => False

/-- A call that takes its key to hold a list. -/
def UsesList : Call → Prop
  | .prepend _ _ | .items _ | .remove _ _ => True
  | _ => False

/-- No key is used for a value and for a list. -/
def OneWay (calls : List Call) : Prop :=
  ∀ c ∈ calls, ∀ d ∈ calls, c.UsesValue → d.UsesList → c.key ≠ d.key

/-- A call with its answer, if it has one. -/
structure Answered where
  call : Call
  answer : Option call.Answer

end Call

/-- Perform calls one after the other. -/
def performAll : List Call → Program (List Call.Answered)
  | [] => return []
  | c :: rest => do
    let answer ← Program.perform c
    let later ← performAll rest
    return ⟨c, answer⟩ :: later

section OneWay

variable {σ : Type} [KeyValue σ]

theorem mem_of_mem_performAll {calls : List Call} {s : Site σ} {c : Call}
    (h : c ∈ (performAll calls).calls s) : c ∈ calls := by
  induction calls generalizing s with
  | nil => cases h
  | cons d rest ih =>
    have hfirst : (Program.perform d).calls s ⊆ [d] := by
      rw [Program.perform, Program.calls]
      split
      · exact List.Subset.refl _
      · exact List.nil_subset _
    rw [performAll, programCalls_bind, programCalls_bind] at h
    rcases List.mem_append.mp h with h | h
    · exact List.mem_cons.mpr (.inl (List.mem_singleton.mp (hfirst h)))
    · rcases List.mem_append.mp h with h | h
      · exact List.mem_cons_of_mem d (ih h)
      · cases h

variable [Viewed σ]

/-- What a store holds at a key comes from a call that uses the key for it. -/
structure HeldFor (calls : List Call) (s : σ) : Prop where
  value : ∀ key, Viewed.valueAt? s key ≠ none → ∃ c ∈ calls, c.UsesValue ∧ c.key = key
  list : ∀ key, Viewed.listAt s key ≠ [] → ∃ c ∈ calls, c.UsesList ∧ c.key = key

theorem HeldFor.fits {calls : List Call} (hcalls : Call.OneWay calls) {s : σ}
    (h : HeldFor calls s) {c : Call} (hc : c ∈ calls) : c.Fits s := by
  cases c with
  | set key value =>
    refine Classical.byContradiction fun hlist => ?_
    obtain ⟨d, hd, hused, hkey⟩ := h.list key hlist
    exact hcalls _ hc d hd trivial hused hkey.symm
  | prepend key item =>
    refine Classical.byContradiction fun hvalue => ?_
    obtain ⟨d, hd, hused, hkey⟩ := h.value key hvalue
    exact hcalls d hd _ hc hused trivial hkey
  | get key => exact trivial
  | delete key => exact trivial
  | items key => exact trivial
  | remove key item => exact trivial

theorem HeldFor.perform {calls : List Call} (hcalls : Call.OneWay calls) {s : σ}
    (h : HeldFor calls s) {c : Call} (hc : c ∈ calls) :
    HeldFor calls (KeyValue.perform c s).2 := by
  have hfits := h.fits hcalls hc
  obtain htaken | hsame := taken_or_same c s
  case inr =>
    rw [hsame]
    exact h
  cases c with
  | get key =>
    rw [Viewed.perform_get]
    exact h
  | set key value =>
    refine ⟨fun other hvalue => ?_, fun other hlist => ?_⟩
    · rw [Viewed.valueAt?_set key _ _ _ htaken] at hvalue
      split at hvalue
      · next heq => exact ⟨_, hc, trivial, heq.symm⟩
      · exact h.value other hvalue
    · rw [Viewed.listAt_set _ _ _ _ (.inr hfits)] at hlist
      exact h.list other hlist
  | delete key =>
    refine ⟨fun other hvalue => ?_, fun other hlist => ?_⟩
    · rw [Viewed.valueAt?_delete] at hvalue
      split at hvalue
      · exact absurd rfl hvalue
      · exact h.value other hvalue
    · rw [Viewed.listAt_delete] at hlist
      split at hlist
      · exact absurd rfl hlist
      · exact h.list other hlist
  | prepend key item =>
    refine ⟨fun other hvalue => ?_, fun other hlist => ?_⟩
    · rw [Viewed.valueAt?_prepend _ _ _ _ (.inr hfits)] at hvalue
      exact h.value other hvalue
    · rw [Viewed.listAt_prepend key _ _ _ htaken] at hlist
      split at hlist
      · next heq => exact ⟨_, hc, trivial, heq.symm⟩
      · exact h.list other hlist
  | items key =>
    rw [Viewed.perform_items]
    exact h
  | remove key item =>
    refine ⟨fun other hvalue => ?_, fun other hlist => ?_⟩
    · rw [Viewed.valueAt?_remove] at hvalue
      exact h.value other hvalue
    · rw [Viewed.listAt_remove] at hlist
      split at hlist
      · next heq => exact ⟨_, hc, trivial, heq.symm⟩
      · exact h.list other hlist

end OneWay

/-! ## Texts that keys are made of -/

/-- The texts of a comment that keys are made of can be encoded. -/
structure Keyed (c : Comment) : Prop where
  hash : c.hash.isPlain = true
  post : c.post.isPlain = true
  parent : ∀ hash ∈ c.parent, hash.isPlain = true

/-- The texts of an operation that keys are made of can be encoded. -/
def Operation.Keyed : Operation → Prop
  | .create _ post _ _ _ parent => post.isPlain = true ∧ ∀ hash ∈ parent, hash.isPlain = true
  | .update hash _ _ | .delete hash _ | .find hash => hash.isPlain = true
  | .list post | .threads post => post.isPlain = true

instance : DecidablePred Operation.Keyed
  | .create _ post .. => inferInstanceAs (Decidable (post.isPlain = true ∧ _))
  | .update .. | .delete .. | .find _ | .list _ | .threads _ =>
    inferInstanceAs (Decidable (_ = true))

/-- The key of a call can be encoded. -/
def Call.HasPlainKey (c : Call) : Prop := c.key.isPlain = true

theorem plain_getRecord {hash : RawText} (h : hash.isPlain = true) :
    Call.HasPlainKey (.get (recordKey hash)) := by
  rw [Call.HasPlainKey, Call.key, isPlain_recordKey, h]

section Keyed

variable {l : Ledger} {s : Site Memory} {c : Call}

/-- Every hash that is tried for a new comment is a string. -/
theorem plain_newHash {attempts : Nat} {s : Site Memory}
    (hc : c ∈ (newHash attempts).calls s) : c.HasPlainKey := by
  induction attempts generalizing s with
  | zero => cases hc
  | succ attempts ih =>
    rw [newHash, calls_bind_ok (outcome_freshHash s), calls_freshHash, List.nil_append] at hc
    rcases mem_calls_bind hc with hc | ⟨found, s₁, -, hc⟩
    · exact makes_ask (plain_getRecord (RawText.isPlain_plain _)) _ c hc
    · cases found with
      | none => cases hc
      | some record => exact ih hc

theorem plain_list (h : Keeps s.store l) (hl : ∀ c ∈ l.comments, Keyed c) {post : RawText}
    (hpost : post.isPlain = true) (hc : c ∈ (list post).calls s) : c.HasPlainKey := by
  have hindex : Call.HasPlainKey (.items (indexKey post)) := by
    rw [Call.HasPlainKey, Call.key, isPlain_indexKey, hpost]
  rw [list] at hc
  rcases mem_calls_bind hc with hc | ⟨hashes, s', hitems, hc⟩
  · exact makes_ask hindex s c hc
  · rw [outcome_ask, perform_items, h.index] at hitems
    cases hitems
    refine makes_findAll (fun hash hhash => ?_) s c hc
    obtain ⟨d, hd, rfl⟩ := List.mem_map.mp hhash
    exact plain_getRecord (hl d (List.mem_filter.mp hd).1).hash

theorem plain_resolveGiven (h : Keeps s.store l) (hl : ∀ c ∈ l.comments, Keyed c)
    {post : RawText} {parent : Option RawText} (hparent : ∀ hash ∈ parent, hash.isPlain = true)
    (hc : c ∈ (resolveGiven post parent).calls s) : c.HasPlainKey := by
  unfold resolveGiven at hc
  cases hgiven : given parent with
  | none =>
    rw [hgiven] at hc
    cases hc
  | some hash =>
    have hhash := hparent hash (given_eq_some_iff.mp hgiven).1
    simp only [hgiven] at hc
    rcases mem_calls_bind hc with hc | ⟨resolved, s', -, hc⟩
    · rw [resolveParent] at hc
      rcases mem_calls_bind hc with hc | ⟨named, s', hnamed, hc⟩
      · exact makes_findOn (plain_getRecord hhash) post s c hc
      · rw [outcome_findOn h] at hnamed
        have hmem := mem_of_withHash? (onPost_eq_ok (Prod.mk.inj hnamed).1).1
        split at hc
        · cases hc
        · rcases mem_calls_bind hc with hc | ⟨root, s'', -, hc⟩
          · refine makes_findOn (plain_getRecord ?_) post s' c hc
            cases hnamedParent : named.parent with
            | none => rfl
            | some parent => exact (hl named hmem).parent parent hnamedParent
          · cases hc
    · cases hc

theorem plain_authorize {hash : RawText} (hhash : hash.isPlain = true) (password : RawText)
    (hc : c ∈ (authorize hash password).calls s) : c.HasPlainKey := by
  refine makes_authorize (plain_getRecord hhash) ?_ password s c hc
  rw [Call.HasPlainKey, Call.key, isPlain_passwordKey, hhash]

/-- What is written for a comment is under keys made of its hash, and in the index of
its post. -/
theorem plain_of_writesFor {post hash : RawText} (hpost : post.isPlain = true)
    (hhash : hash.isPlain = true) (h : WritesFor hash c)
    (hindex : c.changesIndex = true → c.key = indexKey post) : c.HasPlainKey := by
  unfold Call.HasPlainKey
  cases h with
  | setRecord | deleteRecord => rw [Call.key, isPlain_recordKey, hhash]
  | setPassword | deletePassword => rw [Call.key, isPlain_passwordKey, hhash]
  | prepend | remove => rw [hindex rfl, isPlain_indexKey, hpost]

/-- A new comment goes into the index of its post. -/
theorem key_of_newCalls {new : Comment} {lock : Option String} (hc : c ∈ newCalls new lock)
    (hchanges : c.changesIndex = true) : c.key = indexKey new.post := by
  rcases List.mem_append.mp hc with hc | hc
  · simp only [List.mem_cons, List.not_mem_nil, or_false] at hc
    rcases hc with rfl | rfl
    · cases hchanges
    · rfl
  · cases lock with
    | none => cases hc
    | some stored =>
      cases List.mem_singleton.mp hc
      cases hchanges

/-- A comment that is removed goes out of the index of its post. -/
theorem key_of_removalCalls {post hash : RawText} (hc : c ∈ removalCalls post hash)
    (hchanges : c.changesIndex = true) : c.key = indexKey post := by
  simp only [removalCalls, List.mem_cons, List.not_mem_nil, or_false] at hc
  rcases hc with rfl | rfl | rfl
  · rfl
  · cases hchanges
  · cases hchanges

/-- Every key of an operation's calls can be encoded, if what it is made of can. -/
theorem isPlain_of_mem_calls (defaultAuthor : String) {op : Operation} (hop : op.Keyed)
    (h : Keeps s.store l) (hl : ∀ c ∈ l.comments, Keyed c)
    (hc : c ∈ (op.action defaultAuthor).calls s) : c.HasPlainKey := by
  cases op with
  | create salt post message author password parent =>
    obtain ⟨hpost, hparent⟩ := hop
    have hchoose {d : Call} (hd : d ∈ (chooseHash post parent).calls s) : d.HasPlainKey := by
      rcases mem_calls_bind hd with hd | ⟨resolved, s', -, hd⟩
      · exact plain_resolveGiven h hl hparent hd
      · exact plain_newHash hd
    rw [Operation.action] at hc
    obtain ⟨fault, -, hcalls⟩ | ⟨new, s', writes, hnew, rfl, -, hwrote, hcalls⟩ :=
      create_calls ⟨defaultAuthor, salt⟩ post message author password parent s
    · exact hchoose (hcalls ▸ hc)
    · rw [hcalls] at hc
      rcases List.mem_append.mp hc with hc | hc
      · exact hchoose hc
      · obtain ⟨resolved, s₁, -, hhash⟩ := ok_of_outcome_bind hnew
        have hmem := hwrote.isPrefix.subset hc
        exact plain_of_writesFor hpost (isPlain_of_newHash hhash) (writesFor_of_created hmem)
          (key_of_newCalls hmem)
  | update hash password message =>
    rw [Operation.action] at hc
    obtain ⟨fault, -, hcalls⟩ | ⟨edited, s', time, -, -, -, hcalls⟩ :=
      update_calls hash password message s
    · exact plain_authorize hop password (hcalls ▸ hc)
    · rw [hcalls] at hc
      rcases List.mem_append.mp hc with hc | hc
      · exact plain_authorize hop password hc
      · cases List.mem_singleton.mp hc
        rw [Call.HasPlainKey, Call.key, isPlain_recordKey]
        exact hop
  | delete hash password =>
    rw [Operation.action] at hc
    obtain ⟨fault, -, hcalls⟩ | ⟨removed, s', hauthorize, -, hcalls⟩ := delete_calls hash password s
    · exact plain_authorize hop password (hcalls ▸ hc)
    · rw [hcalls] at hc
      rcases List.mem_append.mp hc with hc | hc
      · exact plain_authorize hop password hc
      · rw [outcome_authorize h] at hauthorize
        have hmem := mem_of_withHash? (withHash?_of_authorize (Prod.mk.inj hauthorize).1)
        exact plain_of_writesFor (hl removed hmem).post hop (writesFor_of_removed hc)
          (key_of_removalCalls hc)
  | find hash => exact makes_find (plain_getRecord hop) s c hc
  | list post => exact plain_list h hl hop hc
  | threads post =>
    rcases mem_calls_bind hc with hc | ⟨comments, s', -, hc⟩
    · exact plain_list h hl hop hc
    · cases hc

end Keyed

/-- A hash that is drawn is a string. -/
theorem isPlain_of_drawHash {comments : List Comment} {attempts : Nat} {supply : Supply}
    {hash : RawText} (h : (drawHash comments attempts supply).1 = .ok hash) :
    hash.isPlain = true := by
  induction attempts generalizing supply with
  | zero => cases h
  | succ attempts ih =>
    rw [drawHash] at h
    split at h
    · exact ih h
    · cases h
      exact RawText.isPlain_plain _

/-- After an operation the keys of all comments can be encoded, as before it. -/
theorem keyed_onLedger (defaultAuthor : String) {op : Operation} (hop : op.Keyed)
    {t : Site Ledger} (h : ∀ c ∈ t.store.comments, Keyed c) :
    ∀ c ∈ (op.onLedger defaultAuthor t).2.store.comments, Keyed c := by
  cases op with
  | create salt post message author password parent =>
    rw [Operation.onLedger]
    obtain ⟨fault, -, hstore⟩ | ⟨new, hnew, -, hstore⟩ :=
      create_cases ⟨defaultAuthor, salt⟩ post message author password parent t
    · rw [hstore]
      exact h
    · rw [hstore, comments_cons]
      refine List.forall_mem_cons.mpr ⟨⟨?_, ?_, fun hash hhash => ?_⟩, h⟩
      · exact isPlain_of_drawHash hnew.hash_eq
      · rw [hnew.post_eq]
        exact hop.1
      · have hattach := hnew.parent_eq
        rw [hhash] at hattach
        obtain ⟨c, hc⟩ := Option.ne_none_iff_exists'.mp (withHash?_of_attachGiven hattach)
        rw [← hash_of_withHash? hc]
        exact (h c (mem_of_withHash? hc)).hash
  | update hash password message =>
    rw [Operation.onLedger]
    obtain ⟨fault, -, hstore⟩ | ⟨c, -, -, hstore⟩ := update_cases hash password message t
    · rw [hstore]
      exact h
    · rw [hstore, comments_edit]
      refine List.forall_mem_map.mpr fun c hc => ?_
      split
      · exact ⟨(h c hc).hash, (h c hc).post, (h c hc).parent⟩
      · exact h c hc
  | delete hash password =>
    rw [Operation.onLedger]
    obtain ⟨fault, -, hstore⟩ | ⟨c, -, -, hstore⟩ := delete_cases hash password t
    · rw [hstore]
      exact h
    · rw [hstore, comments_remove]
      exact fun c hc => h c (List.mem_filter.mp hc).1
  | find hash => exact h
  | list post => exact h
  | threads post => exact h

/-! ## The two kinds of store -/

/-- The calls of an operation read, or write for some comment. -/
theorem proper_of_mem_calls {σ : Type} [KeyValue σ] [Viewed σ] (defaultAuthor : String)
    {op : Operation} {s : Site σ} {c : Call} (hc : c ∈ (op.action defaultAuthor).calls s) :
    c.Proper := by
  obtain ⟨reads, writes, hreads, hcalls, hwrites⟩ := writes_of_operation defaultAuthor op s
  rw [hcalls] at hc
  rcases List.mem_append.mp hc with hc | hc
  · exact .inl (hreads c hc)
  · cases hwrites with
    | nothing op => cases hc
    | new hfresh hfirst => exact .inr ⟨_, writesFor_of_created (hfirst.subset hc)⟩
    | edit value =>
      cases List.mem_singleton.mp hc
      exact .inr ⟨_, .setRecord value⟩
    | removal post => exact .inr ⟨_, writesFor_of_removed hc⟩

/-- Documents take every key that can be encoded. -/
theorem takes_of_hasPlainKey {c : Call} (h : c.HasPlainKey) (d : Documents) :
    KeyValue.takes c.key d = true := by
  change (Documents.name? c.key).isSome = true
  rw [Documents.isSome_name?]
  exact h

/-- Operations whose keys can be encoded end alike on a store in memory that keeps a ledger,
and over documents that show the same. -/
theorem log_eq (defaultAuthor : String) {ops : List Operation} (hops : ∀ op ∈ ops, op.Keyed)
    {s : Site Memory} {d : Site Documents} {t : Site Ledger} (hkept : KeepsAt s t)
    (hkeyed : ∀ c ∈ t.store.comments, Keyed c) (h : SameSite s d) :
    (run defaultAuthor ops s).1 = (run defaultAuthor ops d).1 := by
  induction ops generalizing s d t with
  | nil => rfl
  | cons op rest ih =>
    have hop := hops op List.mem_cons_self
    have htidy : Tidy s.store := ⟨hkept.store.valueAt?_indexKey, hkept.store.listKeys⟩
    obtain ⟨houtcome, hafter⟩ := run_sameView (τ := Documents)
      (fun c => c.Proper ∧ c.HasPlainKey) Tidy
      (fun c s hc hs => hs.fits hc.1) (fun c s hc hs => hs.perform hc.1)
      (fun c d hc => takes_of_hasPlainKey hc.2 d) (op.action defaultAuthor)
      (fun c hc => ⟨proper_of_mem_calls defaultAuthor hc,
        isPlain_of_mem_calls defaultAuthor hop hkept.store hkeyed hc⟩) htidy h
    have hlater := ih (fun op hop => hops op (List.mem_cons_of_mem _ hop))
      (operation_refines defaultAuthor op s t hkept).2 (keyed_onLedger defaultAuthor hop hkeyed)
      hafter
    have hfirst : ((op.action defaultAuthor).outcome s).1 =
        ((op.action defaultAuthor).outcome d).1 := houtcome
    simp only [run, runWith] at hlater ⊢
    rw [hfirst, h.supply]
    exact congrArg _ hlater

theorem sameSite_empty (collection : String) (supply : Supply) :
    SameSite (σ := Memory) (τ := Documents) ⟨Memory.empty, supply⟩
      ⟨Documents.empty collection, supply⟩ := by
  refine ⟨⟨fun key => ?_, fun key => ?_⟩, rfl⟩
  · change none = (((Documents.empty collection).find? key).bind _).bind _
    rw [Documents.find?_empty]
    rfl
  · change [] = (((Documents.empty collection).find? key).bind _).getD []
    rw [Documents.find?_empty]
    rfl

/-- A store in memory and one over documents, both empty, answer the same calls
alike, if these use each key in one way and no key has a lone half; and the same
operations on comments end alike, if none of their hashes and posts has one. -/
theorem interchangeable (collection : String) (supply : Supply) :
    (∀ calls, Call.OneWay calls → (∀ c ∈ calls, c.HasPlainKey) →
      ((performAll calls).run (⟨Memory.empty, supply⟩ : Site Memory)).1 =
        ((performAll calls).run (⟨Documents.empty collection, supply⟩ : Site Documents)).1) ∧
    ∀ defaultAuthor ops, (∀ op ∈ ops, Operation.Keyed op) →
      (run defaultAuthor ops (⟨Memory.empty, supply⟩ : Site Memory)).1 =
        (run defaultAuthor ops (⟨Documents.empty collection, supply⟩ : Site Documents)).1 := by
  constructor
  · intro calls hcalls hplain
    have hheld : HeldFor calls Memory.empty :=
      ⟨fun _ hvalue => absurd rfl hvalue, fun _ hlist => absurd rfl hlist⟩
    exact (run_sameView (· ∈ calls) (HeldFor calls)
      (fun c s hc hs => hs.fits hcalls hc) (fun c s hc hs => hs.perform hcalls hc)
      (fun c d hc => takes_of_hasPlainKey (hplain c hc) d) (performAll calls)
      (fun c hc => mem_of_mem_performAll hc) hheld (sameSite_empty collection supply)).1
  · intro defaultAuthor ops hops
    have hkept : KeepsAt (σ := Memory) ⟨Memory.empty, supply⟩ ⟨[], supply⟩ :=
      ⟨keeps_nil (fun _ => rfl) (fun _ => rfl), rfl⟩
    exact log_eq defaultAuthor hops hkept (fun c hc => nomatch hc)
      (sameSite_empty collection supply)

/-- The keys of a record and of an index, the post with a slash in it. -/
theorem interchangeable_slash :
    let calls : List Call :=
      [.set (recordKey "0a1b2c3d") (.text "Hello"), .prepend (indexKey "news/today") "0a1b2c3d",
        .remove (indexKey "news") "0a1b2c3d", .items (indexKey "news/today"),
        .get (recordKey "0a1b2c3d")]
    let ops : List Operation :=
      [.create "$2b$04$abcdefghijklmnopqrstuu" "news/today" "Hello" none (some "secret") none,
        .threads "news/today", .update "0a1b2c3d" "wrong" "Bye", .delete "0a1b2c3d" "secret"]
    let supply : Supply := ⟨fun _ => "0a1b2c3d", fun _ => 0, 0, 0⟩
    (Call.OneWay calls ∧ ∀ c ∈ calls, c.HasPlainKey) ∧ (∀ op ∈ ops, Operation.Keyed op) ∧
      ((performAll calls).run (⟨Memory.empty, supply⟩ : Site Memory)).1 =
        ((performAll calls).run (⟨Documents.empty "kv", supply⟩ : Site Documents)).1 ∧
      (run "Anonymous" ops (⟨Memory.empty, supply⟩ : Site Memory)).1 =
        (run "Anonymous" ops (⟨Documents.empty "kv", supply⟩ : Site Documents)).1 := by
  intro calls ops supply
  have hcalls : Call.OneWay calls := by
    simp [Call.OneWay, calls, Call.UsesValue, Call.UsesList, Call.key]
  have hplain : ∀ c ∈ calls, c.HasPlainKey := by
    simp [calls, Call.HasPlainKey, Call.key]
  have hops : ∀ op ∈ ops, Operation.Keyed op := by decide
  obtain ⟨hanswers, hlogs⟩ := interchangeable "kv" supply
  exact ⟨⟨hcalls, hplain⟩, hops, hanswers calls hcalls hplain, hlogs "Anonymous" ops hops⟩

/-- A hash with a lone half is one that no comment has for a store in memory. For one over
documents it is no key, and it is the look-up that fails. -/
theorem torn_hash_told_apart :
    let hash : RawText := .torn "" (Half.ofUnit 0xD800) ""
    let calls : List Call := [.get (recordKey hash)]
    let supply : Supply := ⟨fun _ => "0a1b2c3d", fun _ => 0, 0, 0⟩
    Call.OneWay calls ∧
      ((performAll calls).run (⟨Memory.empty, supply⟩ : Site Memory)).1 ≠
        ((performAll calls).run (⟨Documents.empty "kv", supply⟩ : Site Documents)).1 ∧
      (run "Anonymous" [.delete hash "x"] (⟨Memory.empty, supply⟩ : Site Memory)).1 =
        [⟨.delete hash "x", supply, .error (.notFound hash)⟩] ∧
      (run "Anonymous" [.delete hash "x"] (⟨Documents.empty "kv", supply⟩ : Site Documents)).1 =
        [⟨.delete hash "x", supply, .error .notEncodable⟩] := by
  intro hash calls supply
  refine ⟨?_, fun h => ?_, rfl, rfl⟩
  · simp [Call.OneWay, calls, Call.UsesList]
  · cases h

end CommentThreads.Store
