/-
CommentThreads.Proofs.Store.Arrangement — what the threads of a post show.

Threads are made by filtering the comments of a post twice: for the roots, and
for the answers to each root. That this shows no comment twice, and leaves none
out but answers whose root was removed, is no matter of the filters. It rests on
hashes being distinct and on parents being roots (`Threaded`), so it holds of
the states that operations lead to (`arranged_of_run`).
-/
import CommentThreads.Proofs.Store.Threads

namespace CommentThreads.Store

open Ledger

/-! ## Flattening -/

section Flattening

variable {comments : List Comment}

/-- A comment is shown as a root, or below the root that it answers. -/
theorem mem_comments_threadsOf (s : Summary) :
    s ∈ Thread.comments (threadsOf comments) ↔ ∃ c ∈ comments, c.summary = s ∧
      (c.isRoot = true ∨ ∃ root ∈ comments, root.isRoot = true ∧ c.parent = some root.hash) := by
  simp only [Thread.comments, threadsOf, List.mem_flatMap, List.mem_map, List.mem_cons]
  constructor
  · rintro ⟨_, ⟨root, hroot, rfl⟩, hshown⟩
    obtain ⟨hroot, hisRoot⟩ := List.mem_filter.mp hroot
    rcases hshown with rfl | hreply
    · exact ⟨root, hroot, rfl, .inl hisRoot⟩
    · obtain ⟨c, hc, rfl⟩ := List.mem_map.mp hreply
      obtain ⟨hc, hparent⟩ := List.mem_filter.mp hc
      exact ⟨c, hc, rfl, .inr ⟨root, hroot, hisRoot, of_decide_eq_true hparent⟩⟩
  · rintro ⟨c, hc, rfl, hisRoot | ⟨root, hroot, hisRoot, hparent⟩⟩
    · exact ⟨_, ⟨c, List.mem_filter.mpr ⟨hc, hisRoot⟩, rfl⟩, .inl rfl⟩
    · refine ⟨_, ⟨root, List.mem_filter.mpr ⟨hroot, hisRoot⟩, rfl⟩, .inr ?_⟩
      exact List.mem_map_of_mem (List.mem_filter.mpr ⟨hc, decide_eq_true hparent⟩)

theorem eq_of_hash_eq (hdistinct : (comments.map Comment.hash).Nodup) {c d : Comment}
    (hc : c ∈ comments) (hd : d ∈ comments) (h : c.hash = d.hash) : c = d := by
  have hfound := withHash?_of_mem hdistinct hc
  rw [h, withHash?_of_mem hdistinct hd] at hfound
  exact (Option.some.inj hfound).symm

/-- Where hashes are distinct, and what answers a comment is no root, no
comment is shown twice. -/
theorem nodup_comments_threadsOf (hdistinct : (comments.map Comment.hash).Nodup)
    (hanswers : ∀ c ∈ comments, c.isRoot = true → c.parent = none) :
    ((Thread.comments (threadsOf comments)).map Summary.hash).Nodup := by
  have hpieces : (Thread.comments (threadsOf comments)).map Summary.hash =
      (comments.filter Comment.isRoot).flatMap fun root =>
        root.hash :: (comments.filter (·.parent = some root.hash)).map Comment.hash := by
    simp only [Thread.comments, threadsOf, List.map_flatMap, List.flatMap_map, List.map_cons,
      List.map_map]
    rfl
  rw [hpieces, List.Nodup, List.pairwise_flatMap]
  constructor
  · intro root hroot
    obtain ⟨hmem, hisRoot⟩ := List.mem_filter.mp hroot
    refine List.nodup_cons.mpr ⟨fun hself => ?_, hdistinct.sublist (List.filter_sublist.map _)⟩
    obtain ⟨c, hc, hhash⟩ := List.mem_map.mp hself
    obtain ⟨hc, hparent⟩ := List.mem_filter.mp hc
    cases eq_of_hash_eq hdistinct hc hmem hhash
    simp [hanswers root hmem hisRoot] at hparent
  · have hroots : (comments.filter Comment.isRoot).Pairwise fun c d => c.hash ≠ d.hash :=
      (List.pairwise_map.mp hdistinct).filter _
    refine hroots.imp_of_mem fun {root other} hroot hother hne hash hhash hash' hhash' heq => ?_
    subst heq
    obtain ⟨hmem, hisRoot⟩ := List.mem_filter.mp hroot
    obtain ⟨hmem', hisRoot'⟩ := List.mem_filter.mp hother
    have hanswer {root : Comment} (hhash : hash ∈
        (comments.filter (·.parent = some root.hash)).map Comment.hash) :
        ∃ c ∈ comments, c.hash = hash ∧ c.parent = some root.hash := by
      obtain ⟨c, hc, rfl⟩ := List.mem_map.mp hhash
      obtain ⟨hc, hparent⟩ := List.mem_filter.mp hc
      exact ⟨c, hc, rfl, of_decide_eq_true hparent⟩
    rcases List.mem_cons.mp hhash with rfl | hhash
    · rcases List.mem_cons.mp hhash' with heq | hhash'
      · exact hne heq
      · obtain ⟨c, hc, heq, hparent⟩ := hanswer hhash'
        cases eq_of_hash_eq hdistinct hc hmem heq
        simp [hanswers root hmem hisRoot] at hparent
    · obtain ⟨c, hc, rfl, hparent⟩ := hanswer hhash
      rcases List.mem_cons.mp hhash' with heq | hhash'
      · cases eq_of_hash_eq hdistinct hc hmem' heq
        simp [hanswers other hmem' hisRoot'] at hparent
      · obtain ⟨d, hd, heq, hparent'⟩ := hanswer hhash'
        cases eq_of_hash_eq hdistinct hd hc heq
        rw [hparent] at hparent'
        exact hne (Option.some.inj hparent')

end Flattening

/-! ## Arranging -/

/-- The threads of a post arrange its comments: each root is listed with the
answers to it, both in the order of the index, and what is listed nowhere is an
answer whose root was removed. -/
structure Arranged (log : List Event) (site : Site Memory) (post : RawText)
    (comments : List Comment) (listed : List Thread) : Prop where
  outcome_eq : (threads post).outcome site = (.ok listed, site)
  stored_iff : ∀ c, c ∈ comments ↔ Finds site c.hash c ∧ c.post = post
  index_eq : comments.map Comment.hash = site.store.listAt (indexKey post)
  roots_eq : listed.map Thread.root = (comments.filter (·.parent = none)).map Comment.summary
  replies_eq : ∀ t ∈ listed,
    t.replies = (comments.filter (·.parent = some t.root.hash)).map Comment.summary
  distinct : ((Thread.comments listed).map Summary.hash).Nodup
  shown_iff : ∀ c ∈ comments, c.summary ∈ Thread.comments listed ↔
    c.parent = none ∨ ∃ root ∈ comments, root.parent = none ∧ c.parent = some root.hash
  left_out : ∀ c ∈ comments, c.summary ∉ Thread.comments listed →
    ∃ hash, c.parent = some hash ∧ ∃ e ∈ log, e.removes hash = true
  nothing_else : ∀ s ∈ Thread.comments listed, ∃ c ∈ comments, c.summary = s

section Arranged

variable {comments : List Comment}

theorem roots_threadsOf (hroots : ∀ c ∈ comments, c.isRoot = true ↔ c.parent = none) :
    (threadsOf comments).map Thread.root =
      (comments.filter (·.parent = none)).map Comment.summary := by
  have hfilter : comments.filter Comment.isRoot = comments.filter (·.parent = none) := by
    refine List.filter_congr fun c hc => ?_
    rw [Bool.eq_iff_iff, hroots c hc, decide_eq_true_iff]
  rw [threadsOf, List.map_map, hfilter]
  rfl

theorem replies_threadsOf {t : Thread} (ht : t ∈ threadsOf comments) :
    t.replies = (comments.filter (·.parent = some t.root.hash)).map Comment.summary := by
  obtain ⟨root, -, rfl⟩ := List.mem_map.mp ht
  rfl

/-- Where hashes are distinct, a comment is found in the threads by what they
show of it. -/
theorem shown_threadsOf_iff (hdistinct : (comments.map Comment.hash).Nodup)
    (hroots : ∀ c ∈ comments, c.isRoot = true ↔ c.parent = none) {c : Comment}
    (hc : c ∈ comments) :
    c.summary ∈ Thread.comments (threadsOf comments) ↔
      c.parent = none ∨ ∃ root ∈ comments, root.parent = none ∧ c.parent = some root.hash := by
  rw [mem_comments_threadsOf]
  constructor
  · rintro ⟨d, hd, hsummary, hshown⟩
    cases eq_of_hash_eq hdistinct hd hc (congrArg Summary.hash hsummary)
    rcases hshown with hisRoot | ⟨root, hroot, hisRoot, hparent⟩
    · exact .inl ((hroots c hc).mp hisRoot)
    · exact .inr ⟨root, hroot, (hroots root hroot).mp hisRoot, hparent⟩
  · rintro (hnone | ⟨root, hroot, hnone, hparent⟩)
    · exact ⟨c, hc, rfl, .inl ((hroots c hc).mpr hnone)⟩
    · exact ⟨c, hc, rfl, .inr ⟨root, hroot, (hroots root hroot).mpr hnone, hparent⟩⟩

/-- The comments of a post that a ledger keeps are arranged. -/
theorem arranged_of_threaded {log : List Event} {site : Site Memory} {l : Ledger}
    (h : Keeps site.store l) (hthreaded : Threaded log l) (post : RawText) :
    Arranged log site post (ofPost post l.comments) (threadsOf (ofPost post l.comments)) := by
  have hmem {c : Comment} : c ∈ ofPost post l.comments ↔ c ∈ l.comments ∧ c.post = post := by
    rw [ofPost, List.mem_filter, decide_eq_true_iff]
  have hdistinct : ((ofPost post l.comments).map Comment.hash).Nodup :=
    h.distinct.sublist (List.filter_sublist.map _)
  have hroots : ∀ c ∈ ofPost post l.comments, c.isRoot = true ↔ c.parent = none :=
    fun c hc => (hthreaded c (hmem.mp hc).1).isRoot_iff
  have hshown {c : Comment} (hc : c ∈ ofPost post l.comments) :=
    shown_threadsOf_iff hdistinct hroots hc
  refine {
    outcome_eq := outcome_threads h post
    stored_iff := fun c => ?_
    index_eq := (h.index post).symm
    roots_eq := roots_threadsOf hroots
    replies_eq := fun t => replies_threadsOf
    distinct := nodup_comments_threadsOf hdistinct fun c hc => (hroots c hc).mp
    shown_iff := fun c => hshown
    left_out := fun c hc hleft => ?_
    nothing_else := fun s hs => ?_ }
  · rw [hmem, finds_iff h]
    exact and_congr_left fun _ => ⟨withHash?_of_mem h.distinct, mem_of_withHash?⟩
  · rw [hshown hc] at hleft
    obtain ⟨hc, hpost⟩ := hmem.mp hc
    rcases hthreaded c hc with hnone | ⟨hash, hsome, -, ⟨root, hroot, rfl⟩ | hremoved⟩
    · exact absurd (.inl hnone) hleft
    · obtain ⟨hroot, hrootPost, hparent⟩ := hroot
      exact absurd (.inr ⟨root, hmem.mpr ⟨hroot, hrootPost.trans hpost⟩, hparent, hsome⟩) hleft
    · exact ⟨hash, hsome, hremoved⟩
  · obtain ⟨c, hc, hsummary, -⟩ := (mem_comments_threadsOf s).mp hs
    exact ⟨c, hc, hsummary⟩

end Arranged

/-- After any operations on an empty store, the threads of every post arrange
its comments. -/
theorem arranged_of_run (defaultAuthor : String) (supply : Supply) (ops : List Operation)
    (post : RawText) :
    ∃ comments listed,
      Arranged (run defaultAuthor ops ⟨Memory.empty, supply⟩).1
        (run defaultAuthor ops ⟨Memory.empty, supply⟩).2 post comments listed := by
  obtain ⟨l, hkeeps, hthreaded⟩ := ledger_of_run (Prod.eta _).symm Threaded
    (fun op _ log t h => h.step op) threaded_nil
  exact ⟨_, _, arranged_of_threaded hkeeps hthreaded post⟩

end CommentThreads.Store
