/-
CommentThreads.Proofs.Store.Threads — how comments and their answers hang
together.

A new answer is attached by following one link: to the comment that was
named, or to the parent of that comment. That this ends at a comment which
is itself no answer rests on `Threaded`, which every operation keeps: the
parent of a comment is a root on the same post, or its hash was removed.

So threads are one level deep (`oneLevel_of_run`), as long as no hash is drawn
again that was removed.
-/
import CommentThreads.Proofs.Store.Failure
import CommentThreads.Proofs.Store.Removal

namespace CommentThreads.Store

open Ledger Time

/-! ## Parents -/

/-- A comment of a post that answers no other. -/
def IsRootOn (post : RawText) (comments : List Comment) (root : Comment) : Prop :=
  root ∈ comments ∧ root.post = post ∧ root.parent = none

/-- The parent of a comment is a root on the same post, or its hash was
removed. -/
def ParentKept (log : List Event) (comments : List Comment) (c : Comment) : Prop :=
  c.parent = none ∨ ∃ hash, c.parent = some hash ∧ hash ≠ "" ∧
    ((∃ root, IsRootOn c.post comments root ∧ root.hash = hash) ∨
      ∃ e ∈ log, e.removes hash = true)

/-- The parents of all comments are kept. -/
def Threaded (log : List Event) (l : Ledger) : Prop :=
  ∀ c ∈ l.comments, ParentKept log l.comments c

theorem ParentKept.isRoot_iff {log : List Event} {comments : List Comment} {c : Comment}
    (h : ParentKept log comments c) : c.isRoot = true ↔ c.parent = none := by
  unfold Comment.isRoot
  rcases h with hnone | ⟨hash, hsome, hne, -⟩
  · simp [hnone]
  · simp [hsome, hne]

/-- The comments may become other ones, as long as roots stay what they are or
are removed. -/
theorem ParentKept.mono {log : List Event} {comments comments' : List Comment} {c : Comment}
    (h : ParentKept log comments c) (later : List Event)
    (hroots : ∀ root, IsRootOn c.post comments root →
      (∃ root', IsRootOn c.post comments' root' ∧ root'.hash = root.hash) ∨
        ∃ e ∈ later, e.removes root.hash = true) :
    ParentKept (log ++ later) comments' c := by
  rcases h with hnone | ⟨hash, hsome, hne, ⟨root, hroot, hhash⟩ | ⟨e, he, hremoves⟩⟩
  · exact .inl hnone
  · refine .inr ⟨hash, hsome, hne, ?_⟩
    rcases hroots root hroot with ⟨root', hroot', hhash'⟩ | ⟨e, he, hremoves⟩
    · exact .inl ⟨root', hroot', hhash'.trans hhash⟩
    · exact .inr ⟨e, List.mem_append_right _ he, hhash ▸ hremoves⟩
  · exact .inr ⟨hash, hsome, hne, .inr ⟨e, List.mem_append_left _ he, hremoves⟩⟩

/-! ## Attaching an answer -/

theorem onPost_eq_ok {post hash : RawText} {comments : List Comment} {c : Comment}
    (h : onPost post hash comments = .ok c) : withHash? hash comments = some c ∧ c.post = post := by
  unfold onPost at h
  split at h
  · next found hfound =>
    split at h
    · next hpost =>
      cases h
      exact ⟨hfound, hpost⟩
    · cases h
  · cases h

/-- An answer is attached to the comment that is named if that is a root, and
to the parent of that comment otherwise. -/
theorem attach_eq_ok {post hash parent : RawText} {comments : List Comment}
    (h : attach post hash comments = .ok parent) :
    ∃ named, withHash? hash comments = some named ∧ named.post = post ∧
      ((named.isRoot = true ∧ parent = named.hash) ∨
        (named.isRoot = false ∧ ∃ root, withHash? (named.parent.getD "") comments = some root ∧
          root.post = post ∧ parent = root.hash)) := by
  unfold attach at h
  cases hnamed : onPost post hash comments with
  | error fault =>
    rw [hnamed] at h
    cases h
  | ok named =>
    obtain ⟨hfound, hpost⟩ := onPost_eq_ok hnamed
    refine ⟨named, hfound, hpost, ?_⟩
    simp only [hnamed] at h
    cases hroot : named.isRoot with
    | true =>
      simp only [hroot, if_true] at h
      cases h
      exact .inl ⟨rfl, rfl⟩
    | false =>
      simp only [hroot, Bool.false_eq_true, if_false] at h
      cases hparent : onPost post (named.parent.getD "") comments with
      | error fault =>
        rw [hparent] at h
        cases h
      | ok root =>
        obtain ⟨hfound', hpost'⟩ := onPost_eq_ok hparent
        rw [hparent] at h
        cases h
        exact .inr ⟨rfl, root, hfound', hpost', rfl⟩

theorem withHash?_of_attachGiven {post hash : RawText} {parent : Option RawText}
    {comments : List Comment} (h : attachGiven post parent comments = .ok (some hash)) :
    withHash? hash comments ≠ none := by
  unfold attachGiven at h
  cases hgiven : given parent with
  | none =>
    rw [hgiven] at h
    cases h
  | some named =>
    simp only [hgiven] at h
    cases hattach : attach post named comments with
    | error fault =>
      rw [hattach] at h
      cases h
    | ok root =>
      rw [hattach] at h
      cases h
      obtain ⟨c, hfound, -, ⟨-, rfl⟩ | ⟨-, root, hroot, -, rfl⟩⟩ := attach_eq_ok hattach
      · rw [hash_of_withHash? hfound, hfound]
        exact Option.some_ne_none _
      · rw [hash_of_withHash? hroot, hroot]
        exact Option.some_ne_none _

/-- What a new comment is attached to is kept, if the parents of all comments
are. -/
theorem parentKept_new {log : List Event} {l : Ledger} (h : Threaded log l) {post : RawText}
    {parent : Option RawText} {c : Comment} (hpost : c.post = post)
    (hattach : attachGiven post parent l.comments = .ok c.parent) :
    ParentKept log l.comments c := by
  unfold attachGiven at hattach
  cases hgiven : given parent with
  | none =>
    rw [hgiven] at hattach
    exact .inl (Except.ok.inj hattach).symm
  | some hash =>
    simp only [hgiven] at hattach
    cases hroot : attach post hash l.comments with
    | error fault =>
      rw [hroot] at hattach
      cases hattach
    | ok resolved =>
      rw [hroot] at hattach
      have hparent : c.parent = some resolved := (Except.ok.inj hattach).symm
      obtain ⟨named, hnamed, hnamedPost, hcases⟩ := attach_eq_ok hroot
      have hkept := h named (mem_of_withHash? hnamed)
      refine .inr ⟨resolved, hparent, ?_⟩
      rcases hcases with ⟨hisRoot, rfl⟩ | ⟨hisRoot, root, hfound, hrootPost, rfl⟩
      · -- the named comment is a root itself
        refine ⟨?_, .inl ⟨named, ⟨mem_of_withHash? hnamed, hnamedPost.trans hpost.symm,
          hkept.isRoot_iff.mp hisRoot⟩, rfl⟩⟩
        rw [hash_of_withHash? hnamed]
        exact (given_eq_some_iff.mp hgiven).2
      · -- the named comment is an answer, and its own parent is kept
        rcases hkept with hnone | ⟨hash', hsome, hne, hparentKept⟩
        · simp [Comment.isRoot, hnone] at hisRoot
        · rw [hsome, Option.getD_some] at hfound
          rw [hash_of_withHash? hfound]
          refine ⟨hne, ?_⟩
          rw [hpost, ← hnamedPost]
          exact hparentKept

/-! ## Every operation keeps parents -/

theorem Threaded.unchanged {log : List Event} {l : Ledger} (h : Threaded log l) (e : Event) :
    Threaded (log ++ [e]) l :=
  fun c hc => (h c hc).mono _ fun root hroot => .inl ⟨root, hroot, rfl⟩

theorem Threaded.created {log : List Event} {l : Ledger} (h : Threaded log l) (e : Event)
    {p : Posting} {post : RawText} {parent : Option RawText} (hpost : p.comment.post = post)
    (hattach : attachGiven post parent l.comments = .ok p.comment.parent) :
    Threaded (log ++ [e]) (p :: l) := by
  intro c hc
  have hkept : ParentKept log l.comments c := by
    rcases List.mem_cons.mp hc with rfl | hc
    · exact parentKept_new h hpost hattach
    · exact h c hc
  exact hkept.mono _ fun root ⟨hmem, hrest⟩ =>
    .inl ⟨root, ⟨List.mem_cons_of_mem _ hmem, hrest⟩, rfl⟩

theorem Threaded.edited {log : List Event} {l : Ledger} (h : Threaded log l) (e : Event)
    (hash message : RawText) (time : DateTime) :
    Threaded (log ++ [e]) (edit hash message time l) := by
  intro c hc
  rw [comments_edit] at hc ⊢
  obtain ⟨d, hd, rfl⟩ := List.mem_map.mp hc
  have hroots : ∀ root, IsRootOn d.post l.comments root →
      ∃ root', IsRootOn d.post (l.comments.map fun c =>
        if c.hash = hash then Ledger.edited message time c else c) root' ∧
          root'.hash = root.hash := by
    rintro root ⟨hmem, hpost, hparent⟩
    refine ⟨_, ⟨List.mem_map_of_mem hmem, ?_, ?_⟩, ?_⟩
    · split <;> exact hpost
    · split <;> exact hparent
    · split <;> rfl
  have hkept := (h d hd).mono [e] fun root hroot => .inl (hroots root hroot)
  split
  · exact hkept
  · exact hkept

theorem Threaded.removed {log : List Event} {l : Ledger} (h : Threaded log l) {e : Event}
    {hash : RawText} (hremoves : e.removes hash = true) :
    Threaded (log ++ [e]) (remove hash l) := by
  intro c hc
  rw [comments_remove] at hc ⊢
  refine (h c (List.mem_filter.mp hc).1).mono _ fun root hroot => ?_
  by_cases hhash : root.hash = hash
  · exact .inr ⟨e, List.mem_singleton_self e, hhash ▸ hremoves⟩
  · exact .inl ⟨root, ⟨List.mem_filter.mpr ⟨hroot.1, by simpa using hhash⟩, hroot.2⟩, rfl⟩

theorem Threaded.step {defaultAuthor : String} (op : Operation) {log : List Event}
    {t : Site Ledger} (h : Threaded log t.store) :
    Threaded (log ++ [⟨op, t.supply, (op.onLedger defaultAuthor t).1⟩])
      (op.onLedger defaultAuthor t).2.store := by
  cases op with
  | create salt post message author password parent =>
    rw [Operation.onLedger]
    obtain ⟨fault, -, hstore⟩ | ⟨c, hnew, -, hstore⟩ :=
      create_cases ⟨defaultAuthor, salt⟩ post message author password parent t
    · rw [hstore]
      exact h.unchanged _
    · rw [hstore]
      exact h.created _ hnew.post_eq hnew.parent_eq
  | update hash password message =>
    rw [Operation.onLedger]
    obtain ⟨fault, -, hstore⟩ | ⟨c, -, -, hstore⟩ := update_cases hash password message t
    · rw [hstore]
      exact h.unchanged _
    · rw [hstore]
      exact h.edited _ hash message _
  | delete hash password =>
    rw [Operation.onLedger]
    obtain ⟨fault, houtcome, hstore⟩ | ⟨c, -, houtcome, hstore⟩ := delete_cases hash password t
    · rw [hstore]
      exact h.unchanged _
    · rw [houtcome, hstore]
      exact h.removed (decide_eq_true rfl)
  | find hash => exact h.unchanged _
  | list post => exact h.unchanged _
  | threads post => exact h.unchanged _

theorem threaded_nil : Threaded [] [] := fun c hc => by simp [comments] at hc

/-! ## Threads are one level deep -/

/-- A hash finds a comment, and looking for it draws nothing. -/
def Finds (site : Site Memory) (hash : RawText) (c : Comment) : Prop :=
  (find hash).outcome site = (.ok (some c), site)

theorem finds_iff {site : Site Memory} {l : Ledger} (h : Keeps site.store l) (hash : RawText)
    (c : Comment) : Finds site hash c ↔ withHash? hash l.comments = some c := by
  rw [Finds, outcome_find h]
  simp

/-- The comment that an answer to a hash is attached to: the one with the hash
if it is a root, and its parent otherwise. -/
structure RootFor (site : Site Memory) (post hash : RawText) (root : Comment) : Prop where
  stored : Finds site root.hash root
  post_eq : root.post = post
  parent_eq : root.parent = none
  reached : ∃ named, Finds site hash named ∧ named.post = post ∧
    (named = root ∨ named.parent = some root.hash)

/-- How a new answer to a hash ends. Either it is stored, as an answer to a
root that was there; only a password without a hash makes this a fault. Or nothing
is stored: there was no such root, all hashes that were drawn had comments, or
the calendar does not have the time of the clock. -/
inductive AnswerEnds (site : Site Memory) (salt : String) (post : RawText)
    (password : Option RawText) (hash : RawText) : Except Fault Comment × Site Memory → Prop
  | stored (root c : Comment) (after : Site Memory) (hroot : RootFor site post hash root)
      (hpost : c.post = post) (hparent : c.parent = some root.hash)
      (hstored : Finds after c.hash c) :
      AnswerEnds site salt post password hash ((lockFor salt password).map fun _ => c, after)
  | noRoot (missing : RawText) (after : Site Memory) (hsame : after.store = site.store)
      (hnone : ∀ root, ¬RootFor site post hash root) :
      AnswerEnds site salt post password hash (.error (.notFound missing), after)
  | noFreshHash (after : Site Memory) (hsame : after.store = site.store)
      (htaken : ∀ k < mostAttempts, ∃ c, Finds site (Text.firstChars Comment.hashLength
        (site.supply.digits (site.supply.digitsDrawn + k))) c) :
      AnswerEnds site salt post password hash (.error .noFreshHash, after)
  | noTime (after : Site Memory) (hsame : after.store = site.store)
      (hrange : inRange site.supply.nextTime.1 = false) :
      AnswerEnds site salt post password hash (.error .clockOutOfRange, after)

/-- Threads are one level deep: a comment that others answer is no answer, and
every new answer is attached to such a comment of its post. -/
structure OneLevel (site : Site Memory) : Prop where
  parent_isRoot : ∀ hash c, Finds site hash c →
    c.parent = none ∨ ∃ parent, c.parent = some parent ∧ parent ≠ "" ∧
      ∀ root, Finds site parent root → root.parent = none ∧ root.post = c.post
  answer_ends : ∀ defaultAuthor salt post message author password (hash : RawText), hash ≠ "" →
    AnswerEnds site salt post password hash
      ((create ⟨defaultAuthor, salt⟩ post message author password (some hash)).outcome site)

section OneLevel

variable {log : List Event} {site : Site Memory} {t : Site Ledger}

/-- A parent that is kept and not removed is a root of the same post. -/
theorem parent_isRoot_of_gone (h : Threaded log t.store) (hgone : ∀ e ∈ log, ∀ hash,
      e.removes hash = true → withHash? hash t.store.comments = none)
    (hdistinct : (t.store.comments.map Comment.hash).Nodup) {c : Comment}
    (hc : c ∈ t.store.comments) :
    c.parent = none ∨ ∃ parent, c.parent = some parent ∧ parent ≠ "" ∧
      ∀ root, withHash? parent t.store.comments = some root →
        root.parent = none ∧ root.post = c.post := by
  rcases h c hc with hnone | ⟨hash, hsome, hne, hkept⟩
  · exact .inl hnone
  · refine .inr ⟨hash, hsome, hne, fun root hfound => ?_⟩
    rcases hkept with ⟨root', ⟨hmem, hpost, hparent⟩, rfl⟩ | ⟨e, he, hremoves⟩
    · rw [withHash?_of_mem hdistinct hmem] at hfound
      cases hfound
      exact ⟨hparent, hpost⟩
    · rw [hgone e he hash hremoves] at hfound
      cases hfound

/-- What an answer is attached to on the ledger is the root for it. -/
theorem rootFor_of_attach (hat : KeepsAt site t) (h : Threaded log t.store)
    (hgone : ∀ e ∈ log, ∀ hash, e.removes hash = true →
      withHash? hash t.store.comments = none) {post hash resolved : RawText}
    (hattach : attach post hash t.store.comments = .ok resolved) :
    ∃ root, RootFor site post hash root ∧ root.hash = resolved := by
  have hfinds (hash : RawText) (c : Comment) := finds_iff hat.store hash c
  have hself {hash : RawText} {c : Comment} (hc : withHash? hash t.store.comments = some c) :
      Finds site c.hash c := by
    rw [hfinds, hash_of_withHash? hc]
    exact hc
  obtain ⟨named, hnamed, hpost, hcases⟩ := attach_eq_ok hattach
  have hmem := mem_of_withHash? hnamed
  rcases hcases with ⟨hisRoot, rfl⟩ | ⟨hisRoot, root, hroot, hrootPost, rfl⟩
  · have hnone := (h named hmem).isRoot_iff.mp hisRoot
    exact ⟨named, ⟨hself hnamed, hpost, hnone, named, (hfinds _ _).mpr hnamed, hpost, .inl rfl⟩,
      rfl⟩
  · rcases parent_isRoot_of_gone h hgone hat.store.distinct hmem with
      hnone | ⟨parent, hsome, -, hroots⟩
    · simp [Comment.isRoot, hnone] at hisRoot
    · rw [hsome, Option.getD_some] at hroot
      refine ⟨root, ⟨hself hroot, hrootPost, (hroots root hroot).1, named,
        (hfinds _ _).mpr hnamed, hpost, .inr ?_⟩, rfl⟩
      rw [hsome, hash_of_withHash? hroot]

/-- Where there is a root for an answer, the answer is attached to it. -/
theorem attach_of_rootFor (hat : KeepsAt site t) (h : Threaded log t.store) {post hash : RawText}
    {root : Comment} (hroot : RootFor site post hash root) :
    attach post hash t.store.comments = .ok root.hash := by
  obtain ⟨hstored, hpost, hparent, named, hnamed, hnamedPost, hreached⟩ := hroot
  rw [finds_iff hat.store] at hstored hnamed
  have hkept := h named (mem_of_withHash? hnamed)
  have hon : onPost post hash t.store.comments = .ok named := by
    simp [onPost, hnamed, hnamedPost]
  have hrootOn : onPost post root.hash t.store.comments = .ok root := by
    simp [onPost, hstored, hpost]
  rw [attach, hon]
  rcases hreached with rfl | hsome
  · simp [hkept.isRoot_iff.mpr hparent]
  · have hisRoot : named.isRoot = false := by
      rw [← Bool.not_eq_true, hkept.isRoot_iff, hsome]
      exact Option.some_ne_none _
    simp [hisRoot, hsome, hrootOn, Except.map]

/-- How a new answer ends, read off the ledger. -/
theorem answerEnds_of_gone (hat : KeepsAt site t) (h : Threaded log t.store)
    (hgone : ∀ e ∈ log, ∀ hash, e.removes hash = true →
      withHash? hash t.store.comments = none)
    (defaultAuthor salt : String) (post message : RawText) (author password : Option RawText)
    {hash : RawText} (hne : hash ≠ "") :
    AnswerEnds site salt post password hash
      ((create ⟨defaultAuthor, salt⟩ post message author password (some hash)).outcome site) := by
  have hnamed : attachGiven post (some hash) t.store.comments =
      (attach post hash t.store.comments).map some := by
    simp [attachGiven, given, RawText.nonEmpty?, hne]
  have hrefines := create_refines ⟨defaultAuthor, salt⟩ post message author password (some hash)
    site t hat
  have hclean := create_failsClean (σ := Memory) ⟨defaultAuthor, salt⟩ post message author password
    (some hash) site
  cases houtcome :
      (create ⟨defaultAuthor, salt⟩ post message author password (some hash)).outcome site with
  | mk result after =>
    rw [houtcome] at hrefines
    obtain ⟨hresult, hafter⟩ := hrefines
    obtain ⟨fault, hfault, hstore⟩ | ⟨c, hnew, hc, hstore⟩ :=
      create_cases ⟨defaultAuthor, salt⟩ post message author password (some hash) t
    · have hcases := create_fault_of_unchanged hfault hstore
      rw [hfault] at hresult
      simp only at hresult
      subst hresult
      have hsame (hunsalted : fault ≠ .badSalt) (hplain : fault ≠ .notEncodable) :
          after.store = site.store :=
        hclean after fault houtcome fun hlock => (lockFor_fault hlock).elim
          (fun htorn => hplain htorn.1) fun hsalt => hunsalted hsalt.1
      rcases hcases with ⟨missing, rfl, hattach⟩ | ⟨rfl, htaken⟩ | ⟨rfl, hrange⟩
      · refine .noRoot missing after (hsame (by simp) (by simp)) fun root hroot => ?_
        rw [hnamed, attach_of_rootFor hat h hroot] at hattach
        cases hattach
      · refine .noFreshHash after (hsame (by simp) (by simp)) fun k hk => ?_
        obtain ⟨c, hc⟩ := htaken k hk
        rw [← hat.supply, ← finds_iff hat.store] at hc
        exact ⟨c, hc⟩
      · rw [← hat.supply] at hrange
        exact .noTime after (hsame (by simp) (by simp)) hrange
    · have hattach := hnew.parent_eq
      rw [hnamed] at hattach
      cases hresolved : attach post hash t.store.comments with
      | error fault =>
        rw [hresolved] at hattach
        cases hattach
      | ok resolved =>
        rw [hresolved] at hattach
        have hparent : c.parent = some resolved := (Except.ok.inj hattach).symm
        obtain ⟨root, hroot, rfl⟩ := rootFor_of_attach hat h hgone hresolved
        have hstored : Finds after c.hash c := by
          rw [finds_iff hafter.store, hstore, comments_cons, withHash?_cons, if_pos rfl]
        rw [hc] at hresult
        simp only at hresult
        subst hresult
        exact .stored root c after hroot hnew.post_eq hparent hstored

end OneLevel

/-- After any operations on an empty store, in which no removed hash was drawn
again, threads are one level deep. -/
theorem oneLevel_of_run (defaultAuthor : String) (supply : Supply) (ops : List Operation)
    (hfresh : NeverRedrawn (run defaultAuthor ops ⟨Memory.empty, supply⟩).1
      (run defaultAuthor ops ⟨Memory.empty, supply⟩).2.supply) :
    OneLevel (run defaultAuthor ops ⟨Memory.empty, supply⟩).2 := by
  obtain ⟨t, hat, hthreaded, hgone⟩ := ledgerAt_of_run (Prod.eta _).symm
    (fun log t => Threaded log t.store ∧ Gone log t)
    (fun op _ log t ⟨hthreaded, hgone⟩ => ⟨hthreaded.step op, hgone.step op⟩)
    ⟨threaded_nil, gone_nil supply⟩
  rw [hat.supply] at hfresh
  have hgone' := hgone.gone hfresh
  refine ⟨fun hash c hc => ?_, fun defaultAuthor salt post message author password hash hne =>
    answerEnds_of_gone hat hthreaded hgone' defaultAuthor salt post message author password hne⟩
  rw [finds_iff hat.store] at hc
  have hparent := parent_isRoot_of_gone hthreaded hgone' hat.store.distinct (mem_of_withHash? hc)
  simpa only [finds_iff hat.store] using hparent

/-- An answer whose root was removed. -/
theorem oneLevel_of_run_removed :
    let salt := "$2b$04$abcdefghijklmnopqrstuu"
    let creations : List Operation :=
      [.create salt "intro" "Hello" none (some "secret") none,
        .create salt "intro" "Hi" none none (some "0a1b2c3d")]
    let ops := creations ++ [.delete "0a1b2c3d" "secret"]
    let supply : Supply :=
      ⟨fun n => if n = 0 then "0a1b2c3d" else "4e5f6071", fun _ => 0, 0, 0⟩
    NeverRedrawn (run "Anonymous" ops ⟨Memory.empty, supply⟩).1
        (run "Anonymous" ops ⟨Memory.empty, supply⟩).2.supply ∧
      OneLevel (run "Anonymous" ops ⟨Memory.empty, supply⟩).2 := by
  intro salt creations ops supply
  have hkept : ∀ hash password, Operation.delete hash password ∉ creations :=
    fun hash password h => by simp [creations] at h
  have hops : ops = creations ++ [.delete "0a1b2c3d" "secret"] := rfl
  have hfresh := neverRedrawn_of_first_removal "Anonymous" supply hops hkept
  exact ⟨hfresh, oneLevel_of_run "Anonymous" supply ops hfresh⟩

end CommentThreads.Store
