/-
CommentThreads.Proofs.Client.LookUp — which comment a look-up finds.

A hash becomes part of an address as it is, so in general a look-up may ask for
something else. A hash that is `Faithful` is still itself once it has been part of an
address: it names the comment that is looked for (`comment_shown`), or nothing
(`comment_missing`). What is typed behind a question mark is not looked for
(`comment_behind_mark`).

A hash as it is drawn, in hexadecimal digits, is faithful (`IsDrawn.faithful`), so a
comment that is kept is found by it (`comment_found`).
-/
import CommentThreads.Proofs.Client.Endings
import CommentThreads.Proofs.Http.Target

namespace CommentThreads.Client

open CommentThreads.Http CommentThreads.Server CommentThreads.Store CommentThreads.Text

/-! ## Addresses of comments -/

/-- The path of a comment. -/
def commentPath (hash : String) : List Char := "/comments/".toList ++ hash.toList

/-- A hash that the server reads as it is: nothing in the path is a mark, a control
character, a dot segment or an escape, and no slash at the end is taken away. -/
structure Faithful (hash : String) : Prop where
  path : Target.Verbatim (commentPath hash)
  ne_empty : hash ≠ ""
  ends : hash.toList.getLast? ≠ some '/'

section Address

variable {hash : String}

theorem rooted_commentPath (hash : String) : Target.Rooted (commentPath hash) :=
  ⟨'c', "omments/".toList ++ hash.toList, by decide, rfl⟩

theorem Faithful.lineFeed_not_mem (h : Faithful hash) : '\n' ∉ hash.toList := by
  intro hmem
  have hcontrol := h.path.controls '\n' (List.mem_append_right _ hmem)
  cases hcontrol

theorem commentPath_marked (hash rest : String) :
    commentPath (hash ++ "?" ++ rest) = commentPath hash ++ '?' :: rest.toList := by
  unfold commentPath
  generalize "/comments/".toList = start
  simp

theorem target_of_faithful (h : Faithful hash) :
    Target.ofReference? ("/comments/".toList ++ hash.toList) =
      some ⟨percentEncode Target.isPathChar (commentPath hash), none⟩ :=
  Target.ofReference?_verbatim (rooted_commentPath hash) h.path

theorem ofPath?_comments (rest : List Char) :
    Resource.ofPath? ("/comments/".toList ++ rest) =
      if rest = [] ∨ '/' ∈ rest then none else some (.comment (String.ofList rest)) := by
  have hafter : afterStart? commentsPath ("/comments/".toList ++ rest) = some ('/' :: rest) := rfl
  rw [Resource.ofPath?, hafter]
  simp

theorem ofPath_of_some {path : List Char} {resource : Resource}
    (h : Resource.ofPath? path = some resource) : Route.ofPath path = .found resource := by
  rw [Route.ofPath, h]

theorem ofPath_of_none {path : List Char} (h : Resource.ofPath? path = none)
    (htoggled : Resource.ofPath? (toggleSlash path) = none) : Route.ofPath path = .nowhere := by
  simp [Route.ofPath, h, htoggled]

/-- One segment names a comment, and several name nothing. -/
theorem ofPath_commentPath (hne : hash ≠ "") (hends : hash.toList.getLast? ≠ some '/') :
    Route.ofPath (commentPath hash) =
      if '/' ∈ hash.toList then .nowhere else .found (.comment hash) := by
  have hempty : hash.toList ≠ [] := by simpa using hne
  have hresource := ofPath?_comments hash.toList
  split
  next hslash =>
    rw [if_pos (.inr hslash)] at hresource
    have hlast : ("/comments/".toList ++ hash.toList).getLast? ≠ some '/' := by
      rw [List.getLast?_append, List.getLast?_eq_some_getLast hempty, Option.some_or,
        ← List.getLast?_eq_some_getLast hempty]
      exact hends
    have htoggled : Resource.ofPath? (toggleSlash ("/comments/".toList ++ hash.toList)) = none := by
      rw [toggleSlash, if_neg hlast, List.append_assoc, ofPath?_comments]
      simp
    exact ofPath_of_none hresource htoggled
  next hslash =>
    rw [if_neg (not_or.mpr ⟨hempty, hslash⟩), String.ofList_toList] at hresource
    exact ofPath_of_some hresource

theorem route_of_faithful (h : Faithful hash) (query : Option (List Char)) :
    Route.ofPath (decodedPath ⟨percentEncode Target.isPathChar (commentPath hash), query⟩) =
      if '/' ∈ hash.toList then .nowhere else .found (.comment hash) := by
  rw [Target.decodedPath_verbatim (rooted_commentPath hash) h.path,
    ofPath_commentPath h.ne_empty h.ends]

end Address

/-! ## The look-up -/

section LookUp

variable {σ : Type} [KeyValue σ] {s : Service} {host : String} {site : Site σ} {hash : String}

/-- What a route answers to a client. -/
theorem replyOf_atRoute (hhost : GoesBy s.settings host) {target : Target} {a : Outcome}
    {after : Site σ}
    (h : (atRoute s (Query.toRequest ⟨"GET", target, none⟩ host)).run site = (a, after)) :
    replyOf s host ⟨"GET", target, none⟩ site = (.ofResponse (delivered a), after) := by
  refine replyOf_atHost (ordinary_of_served (by simp)) ?_
  rw [atHost, hhost _ (hostHeader_toRequest _ host)]
  exact h

theorem replyOf_segment (hhost : GoesBy s.settings host) (hstore : s.hasStore = true)
    (h : Faithful hash) (hslash : '/' ∉ hash.toList) (query : Option (List Char))
    {response : Response} {after : Site σ}
    (hshown : (showComment hash).run site = (response, after)) :
    replyOf s host ⟨"GET", ⟨percentEncode Target.isPathChar (commentPath hash), query⟩, none⟩ site =
      (.ofResponse (delivered (some response)), after) := by
  let target : Target := ⟨percentEncode Target.isPathChar (commentPath hash), query⟩
  refine replyOf_atRoute hhost ?_
  have hroute : Route.ofPath (decodedPath (Query.toRequest ⟨"GET", target, none⟩ host).target) =
      .found (.comment hash) := (route_of_faithful h query).trans (if_neg hslash)
  have hat : atRoute s (Query.toRequest ⟨"GET", target, none⟩ host) =
      some <$> showComment hash := by
    rw [atRoute, hroute]
    simp [atResource, Query.toRequest, withStore, hstore]
  rw [hat, run_map, hshown]

theorem replyOf_segments (hhost : GoesBy s.settings host) (h : Faithful hash)
    (hslash : '/' ∈ hash.toList) (site : Site σ) :
    replyOf s host ⟨"GET", ⟨percentEncode Target.isPathChar (commentPath hash), none⟩, none⟩ site =
      (.ofResponse (.detail 404 "Not Found"), site) := by
  let target : Target := ⟨percentEncode Target.isPathChar (commentPath hash), none⟩
  have hroute : Route.ofPath (decodedPath (Query.toRequest ⟨"GET", target, none⟩ host).target) =
      .nowhere := (route_of_faithful h none).trans (if_pos hslash)
  have hrun : (atRoute s (Query.toRequest ⟨"GET", target, none⟩ host)).run site =
      (some (.detail 404 "Not Found"), site) := by
    rw [atRoute, hroute]
    rfl
  exact replyOf_atRoute hhost hrun

variable [Viewed σ] [TakesAll σ] {t : Site Ledger}

/-- What a look-up comes to that finds a comment: the comment, if it can be written, and
else a failure of the service. -/
def foundAs (c : Comment) : Except Fault Detail :=
  if c.detail.toJson.isSendable then .ok c.detail
  else .error (.refused (.text "Request failed with status 500") (some 500))

theorem foundAs_of_isPlain {c : Comment} (h : Lettered c) (hauthor : c.author.isPlain = true) :
    foundAs c = .ok c.detail := if_pos ((isSendable_detail_iff h).mpr hauthor)

theorem foundAs_of_not_isPlain {c : Comment} (h : Lettered c) (hauthor : c.author.isPlain = false) :
    foundAs c = .error (.refused (.text "Request failed with status 500") (some 500)) := by
  refine if_neg fun hsent => Bool.false_ne_true ?_
  rw [← hauthor, (isSendable_detail_iff h).mp hsent]

/-- Whatever is typed, a comment that is kept is found if its path is what comes of it. -/
theorem comment_of_path (hhost : GoesBy s.settings host) (hstore : s.hasStore = true)
    (ht : KeepsAt site t) (h : Faithful hash) (hslash : '/' ∉ hash.toList) {c : Comment}
    (hc : Ledger.withHash? hash t.store.comments = some c) {typed : String}
    {query : Option (List Char)}
    (htarget : Target.ofReference? (commentPath typed) =
      some ⟨percentEncode Target.isPathChar (commentPath hash), query⟩) :
    (comment typed).outcome (replyOf s host) site = (foundAs c, site) := by
  have hshown : (showComment hash).run site = (.json 200 c.detail.toJson, site) := by
    rw [showComment, run_answer (outcome_find ht.store hash), hc]
    rfl
  have hreply := replyOf_segment hhost hstore h hslash query hshown
  have hbody :
      (Response.json 200 c.detail.toJson).body.isSendable = c.detail.toJson.isSendable := rfl
  rw [comment_of_target htarget, foundAs]
  split
  next hsent =>
    have hdated := ht.store.dated c (Ledger.mem_of_withHash? hc)
    have hread : Detail.reader c.detail.toJson = .valid c.detail :=
      Detail.reader_toJson hdated.created hdated.updated
    rw [delivered_of_isSendable (hbody.trans hsent)] at hreply
    exact outcome_holds rfl hreply (holds_json rfl (Detail.plain_toJson _) hsent hread)
  next htorn =>
    rw [delivered_of_not_isSendable (hbody.trans ((Bool.not_eq_true _).mp htorn))] at hreply
    exact outcome_refused rfl hreply rfl errorDetail_failure

/-- A comment that is kept is found by one who looks it up, and nothing is done. -/
theorem comment_shown (hhost : GoesBy s.settings host) (hstore : s.hasStore = true)
    (ht : KeepsAt site t) (h : Faithful hash) (hslash : '/' ∉ hash.toList) {c : Comment}
    (hc : Ledger.withHash? hash t.store.comments = some c) :
    (comment hash).outcome (replyOf s host) site = (foundAs c, site) :=
  comment_of_path hhost hstore ht h hslash hc (target_of_faithful h)

/-- It is also found by one who types a question mark behind its hash, and more. -/
theorem comment_behind_mark (hhost : GoesBy s.settings host) (hstore : s.hasStore = true)
    (ht : KeepsAt site t) (h : Faithful hash) (hslash : '/' ∉ hash.toList) {c : Comment}
    (hc : Ledger.withHash? hash t.store.comments = some c) {rest : String}
    (hrest : Target.IsQuery (commentPath hash) rest.toList) :
    (comment (hash ++ "?" ++ rest)).outcome (replyOf s host) site = (foundAs c, site) := by
  have htarget := Target.ofReference?_query (rooted_commentPath hash) h.path hrest
  rw [← commentPath_marked] at htarget
  exact comment_of_path hhost hstore ht h hslash hc htarget

/-- A look-up for a comment that is not kept is refused as not found. -/
theorem comment_missing (hhost : GoesBy s.settings host) (hstore : s.hasStore = true)
    (ht : KeepsAt site t) (h : Faithful hash)
    (hnone : Ledger.withHash? hash t.store.comments = none) :
    ∃ detail, (comment hash).outcome (replyOf s host) site =
      (.error (.refused detail (some 404)), site) := by
  rw [comment_of_target (target_of_faithful h)]
  by_cases hslash : '/' ∈ hash.toList
  · exact outcome_refuses rfl (replyOf_segments hhost h hslash site) (refuses_detail rfl rfl)
  · have hshown : (showComment hash).run site = (commentNotFound, site) := by
      rw [showComment, run_answer (outcome_find ht.store hash), hnone]
      rfl
    exact outcome_refuses rfl (replyOf_segment hhost hstore h hslash none hshown)
      (refuses_detail rfl rfl)

end LookUp

/-! ## Hashes as they are drawn -/

/-- A hash as it is drawn. -/
structure IsDrawn (hash : String) : Prop where
  length_eq : hash.toList.length = Comment.hashLength
  digits : ∀ c ∈ hash.toList, (hexValue? c).isSome = true

/-- A random number as it is drawn. -/
structure IsRandom (digits : String) : Prop where
  length_eq : digits.toList.length = 32
  digits : ∀ c ∈ digits.toList, (hexValue? c).isSome = true

theorem isDrawn_firstChars {digits : String} (h : IsRandom digits) :
    IsDrawn (firstChars Comment.hashLength digits) where
  length_eq := by
    rw [firstChars, String.toList_ofList, List.length_take, h.length_eq]
    rfl
  digits c hc := by
    rw [firstChars, String.toList_ofList] at hc
    exact h.digits c (List.mem_of_mem_take hc)

section Drawn

variable {hash : String}

theorem IsDrawn.ne_empty (h : IsDrawn hash) : hash ≠ "" := by
  rintro rfl
  exact absurd h.length_eq (by decide)

/-- What is so of every hexadecimal digit is so of every character of the hash. -/
theorem IsDrawn.forall_chars (h : IsDrawn hash) {P : Char → Prop} [DecidablePred P]
    (hdigits : "0123456789abcdefABCDEF".toList.all (P ·) = true) : ∀ c ∈ hash.toList, P c :=
  fun c hc => of_decide_eq_true (List.all_eq_true.mp hdigits c (mem_hexDigits (h.digits c hc)))

theorem IsDrawn.forall_path (h : IsDrawn hash) {P : Char → Prop} [DecidablePred P]
    (hstart : "/comments/".toList.all (P ·) = true)
    (hdigits : "0123456789abcdefABCDEF".toList.all (P ·) = true) : ∀ c ∈ commentPath hash, P c := by
  intro c hc
  rcases List.mem_append.mp hc with hc | hc
  · exact of_decide_eq_true (List.all_eq_true.mp hstart c hc)
  · exact h.forall_chars hdigits c hc

theorem IsDrawn.slash_not_mem (h : IsDrawn hash) : '/' ∉ hash.toList :=
  fun hc => h.forall_chars (P := (· ≠ '/')) (by decide) _ hc rfl

theorem IsDrawn.length_commentPath (h : IsDrawn hash) : (commentPath hash).length = 18 := by
  have hsum : (commentPath hash).length = "/comments/".toList.length + hash.toList.length :=
    List.length_append
  have hstart : "/comments/".toList.length = 10 := by decide
  rw [hsum, hstart, h.length_eq]
  rfl

/-- A hash of another length than dots is no dot segment. -/
theorem IsDrawn.not_isDots (h : IsDrawn hash) : ¬Target.IsDots hash.toList := by
  have hlength := h.length_eq
  rintro (hone | htwo)
  · rw [hone] at hlength
    cases hlength
  · rw [htwo] at hlength
    cases hlength

theorem splitAt_commentPath (hash : String) :
    splitAt '/' (commentPath hash) = [] :: "comments".toList :: splitAt '/' hash.toList := by
  have hcomments := splitAt_append (show '/' ∉ "comments".toList by decide) hash.toList
  change splitAt '/' ('/' :: ("comments".toList ++ '/' :: hash.toList)) = _
  rw [splitAt, if_pos rfl, hcomments]

theorem IsDrawn.faithful (h : IsDrawn hash) : Faithful hash where
  path := {
    controls := h.forall_path (by decide) (by decide)
    query := fun hc => h.forall_path (P := (· ≠ '?')) (by decide) (by decide) _ hc rfl
    fragment := fun hc => h.forall_path (P := (· ≠ '#')) (by decide) (by decide) _ hc rfl
    escapes := hasEscape_of_not_mem fun hc =>
      h.forall_path (P := (· ≠ '%')) (by decide) (by decide) _ hc rfl
    dots := by
      rw [splitAt_commentPath, splitAt_of_not_mem h.slash_not_mem]
      intro segment hsegment
      rcases List.mem_cons.mp hsegment with rfl | hsegment
      · decide
      · rcases List.mem_cons.mp hsegment with rfl | hsegment
        · decide
        · rw [List.mem_singleton.mp hsegment]
          exact h.not_isDots
    fits := by
      rw [percentEncode_of_safe (h.forall_path (by decide) (by decide)), h.length_commentPath]
      decide }
  ne_empty := h.ne_empty
  ends := fun hlast => h.slash_not_mem (List.mem_of_getLast? hlast)

/-- A comment that is kept is found by its hash, and nothing is done. -/
theorem comment_found {σ : Type} [KeyValue σ] [Viewed σ] [TakesAll σ] {s : Service} {host : String}
    {site : Site σ} {t : Site Ledger} (hhost : GoesBy s.settings host) (hstore : s.hasStore = true)
    (ht : KeepsAt site t) (hdrawn : IsDrawn hash) {c : Comment}
    (hc : Ledger.withHash? hash t.store.comments = some c) :
    (comment hash).outcome (replyOf s host) site = (foundAs c, site) :=
  comment_shown hhost hstore ht hdrawn.faithful hdrawn.slash_not_mem hc

end Drawn

end CommentThreads.Client
