/-
CommentThreads.Proofs.Terminal.ShortHash — the short hashes of a log name the comments
that it shows.

A terminal asks for the threads of its post, and takes a token of seven characters for
the first listed comment whose hash begins with it (`IsFirst`). So the short hash of a
listed comment is that comment's if no other listed one has the same: a removal by it
removes exactly that comment, as soon as a password that the check lets through is
remembered or answered, and after that it names nothing (`short_hashes_resolve`). A
comment of another post, or an answer whose root is gone, is never named.

A post without a name has no threads that can be asked for, and neither has one whose
name fits into no address (`short_hashes_resolve_unasked`). Posts with a listed author that
cannot be written are left out here.
-/
import CommentThreads.Proofs.Terminal.Elsewhere
import CommentThreads.Proofs.Terminal.Oneline

namespace CommentThreads.Terminal

open CommentThreads.Client CommentThreads.Command CommentThreads.Http CommentThreads.Server
  CommentThreads.Store CommentThreads.Text

/-! ## Beginnings -/

/-- A hash begins with a token. -/
def Begins (token : String) (hash : RawText) : Prop := ∃ rest : RawText, hash = token ++ rest

theorem startsWith_iff (hash : RawText) (token : String) :
    hash.startsWith token = true ↔ Begins token hash := by
  have hchars (s : String) : startsWith s token = true ↔ ∃ rest : String, s = token ++ rest := by
    rw [startsWith, Option.isSome_iff_exists]
    constructor
    · rintro ⟨rest, hrest⟩
      refine ⟨String.ofList rest, String.toList_inj.mp ?_⟩
      rw [String.toList_append, String.toList_ofList, afterStart?_eq_some_iff.mp hrest]
    · rintro ⟨rest, rfl⟩
      exact ⟨rest.toList, afterStart?_eq_some_iff.mpr String.toList_append⟩
  cases hash with
  | plain s =>
    refine (hchars s).trans ⟨?_, ?_⟩
    · rintro ⟨rest, hrest⟩
      exact ⟨rest, congrArg RawText.plain hrest⟩
    · rintro ⟨rest, hrest⟩
      cases rest with
      | plain t => exact ⟨t, RawText.plain.inj hrest⟩
      | torn t half rest => cases hrest
  | torn s half after =>
    constructor
    · intro h
      obtain ⟨rest, rfl⟩ := (hchars s).mp h
      exact ⟨.torn rest half after, rfl⟩
    · rintro ⟨rest, hrest⟩
      cases rest with
      | plain t => cases hrest
      | torn t half' rest => exact (hchars s).mpr ⟨t, (RawText.torn.inj hrest).1⟩

/-- A short token begins a hash if it is the short hash. -/
theorem begins_iff_abbreviate {token : String} (h : token.length = shortLength) (hash : RawText) :
    Begins token hash ↔ abbreviate hash = token := by
  rw [abbreviate, RawText.firstPoints]
  constructor
  · rintro ⟨rest, rfl⟩
    have hlength : (token.toList.map Point.char).length = shortLength := by
      rw [List.length_map, String.length_toList, h]
    rw [RawText.points_append, RawText.points_plain, ← hlength, List.take_left',
      RawText.ofPoints_chars, String.ofList_toList]
    rfl
  · intro heq
    refine ⟨RawText.ofPoints (hash.points.drop shortLength), RawText.points_injective ?_⟩
    rw [← heq, RawText.points_append, RawText.points_ofPoints, RawText.points_ofPoints,
      List.take_append_drop]

/-- The short hash of a hash that was drawn. -/
structure IsShort (short hash : String) : Prop where
  abbreviate_eq : abbreviate hash = short
  length_eq : short.length = shortLength
  plain : Plain short.toList

theorem isShort_firstChars {hash : String} (h : IsDrawn hash) :
    IsShort (firstChars shortLength hash) hash where
  abbreviate_eq := by
    rw [abbreviate, RawText.firstPoints, RawText.points_plain, ← List.map_take,
      RawText.ofPoints_chars, firstChars]
  length_eq := by
    rw [← String.length_toList, firstChars, String.toList_ofList, List.length_take, h.length_eq]
    rfl
  plain c hc := by
    rw [firstChars, String.toList_ofList] at hc
    exact plain_of_drawn h c (List.mem_of_mem_take hc)

theorem IsShort.ne_empty {short hash : String} (h : IsShort short hash) : short ≠ "" := by
  rintro rfl
  cases h.length_eq

/-! ## What a token stands for -/

/-- What a token stands for at a terminal: a short one for the first listed comment whose
hash begins with it, and any other one for itself. -/
def resolved (post token : String) : Exchange (Option RawText) :=
  if token.length ≠ shortLength then return some (token : RawText)
  else do
    let threads ← Client.threads post
    return ((Thread.comments threads).find? (·.hash.startsWith token)).map Summary.hash

/-- A removal of what a token stands for. -/
def resetResolved (setup : Setup) (token : String) : Option RawText → Session Unit
  | some hash => resetFull setup hash
  | none => sayBadObject token

/-- The first one of some comments whose hash begins with a token, if there is one. -/
inductive IsFirst (token : String) (comments : List Summary) : Option RawText → Prop
  | found {before after : List Summary} {c : Summary} (split : comments = before ++ c :: after)
      (begins : Begins token c.hash) (others : ∀ d ∈ before, ¬Begins token d.hash) :
    IsFirst token comments (some c.hash)
  | missing (others : ∀ c ∈ comments, ¬Begins token c.hash) : IsFirst token comments none

theorem isFirst_find? (token : String) (comments : List Summary) :
    IsFirst token comments
      ((comments.find? (·.hash.startsWith token)).map Summary.hash) := by
  have hno {c : Summary} (h : (!c.hash.startsWith token) = true) : ¬Begins token c.hash := by
    rw [← startsWith_iff]
    simpa using h
  cases hfound : comments.find? (·.hash.startsWith token) with
  | none =>
    refine .missing fun c hc => hno ?_
    simpa using List.find?_eq_none.mp hfound c hc
  | some c =>
    obtain ⟨hbegins, before, after, hsplit, hothers⟩ := List.find?_eq_some_iff_append.mp hfound
    exact .found hsplit ((startsWith_iff _ _).mp hbegins) fun d hd => hno (hothers d hd)

section First

variable {token : String} {comments : List Summary} {target : Option RawText}

/-- What a token stands for is the hash of one of the comments. -/
theorem IsFirst.mem {hash : RawText} (h : IsFirst token comments (some hash)) :
    ∃ c ∈ comments, c.hash = hash ∧ Begins token hash := by
  cases h with
  | @found before after c hsplit hbegins hothers =>
    exact ⟨c, by rw [hsplit]; exact List.mem_append_right _ List.mem_cons_self, rfl, hbegins⟩

/-- A token that begins one hash only stands for that one. -/
theorem IsFirst.eq_some (h : IsFirst token comments target) {c : Summary} (hc : c ∈ comments)
    (hbegins : Begins token c.hash)
    (halone : ∀ d ∈ comments, Begins token d.hash → d.hash = c.hash) :
    target = some c.hash := by
  cases target with
  | none =>
    cases h with
    | missing hothers => exact absurd hbegins (hothers c hc)
  | some hash =>
    obtain ⟨d, hd, rfl, hbegins'⟩ := h.mem
    rw [halone d hd hbegins']

/-- A token that begins no hash stands for nothing. -/
theorem IsFirst.eq_none (h : IsFirst token comments target)
    (hothers : ∀ c ∈ comments, ¬Begins token c.hash) : target = none := by
  cases target with
  | none => rfl
  | some hash =>
    obtain ⟨c, hc, rfl, hbegins⟩ := h.mem
    exact absurd hbegins (hothers c hc)

end First

/-- The password of a comment that a terminal remembers, if it has one to give. -/
def rememberedAt {σ : Type} (s : Scene σ) (hash : RawText) : Option Json :=
  (s.terminal.file.reflog.get? hash).filter Json.isGiven

section Resolving

variable {σ : Type} {reply : Query → σ → Reply × σ} {setup : Setup} {post token : String}

theorem outcome_resolved {site : σ} {ts : List Thread}
    (hgiven : (Client.threads post).outcome reply site = (.ok ts, site))
    (hshort : token.length = shortLength) :
    (resolved post token).outcome reply site =
      (.ok (((Thread.comments ts).find? (·.hash.startsWith token)).map Summary.hash), site) := by
  rw [resolved, if_neg (not_not_intro hshort), Client.outcome_bind, hgiven]
  rfl

theorem outcome_resolved_error {site : σ} {fault : Client.Fault}
    (hfault : (Client.threads post).outcome reply site = (.error fault, site))
    (hshort : token.length = shortLength) :
    (resolved post token).outcome reply site = (.error fault, site) := by
  rw [resolved, if_neg (not_not_intro hshort), Client.outcome_bind, hfault]

/-- A removal resolves its token first. -/
theorem outcome_reset (setup : Setup) (token : String) (s : Scene σ) :
    (reset setup token).outcome reply s =
      (exchange (resolved setup.post token) (resetResolved setup token) sayRefusal).outcome
        reply s := by
  rw [reset, resolved]
  by_cases hlong : token.length ≠ shortLength
  · have hsame : Exchange.outcome reply (pure (some (token : RawText))) s.server =
        (.ok (some (token : RawText)), s.server) := rfl
    rw [if_pos hlong, if_pos hlong, outcome_exchange_ok hsame]
    rfl
  · rw [if_neg hlong, if_neg hlong, outcome_exchange, outcome_exchange, Client.outcome_bind]
    cases (Client.threads setup.post).outcome reply s.server with
    | mk r server =>
      cases r with
      | error fault => cases fault <;> rfl
      | ok ts =>
        have hpure (found : Option Summary) :
            Exchange.outcome reply (pure (found.map Summary.hash)) server =
              (.ok (found.map Summary.hash), server) := rfl
        dsimp only
        rw [hpure]
        cases (Thread.comments ts).find? (·.hash.startsWith token) <;> rfl

/-- The line that removes by a token. -/
theorem feed_resetLine {s : Scene σ} (hidle : s.terminal.prompt = .idle)
    (hplain : Plain token.toList) (hne : token ≠ "") {target : Option RawText}
    (htarget : (resolved setup.post token).outcome reply s.server = (.ok target, s.server)) :
    (feed setup (resetLine token)).outcome reply s =
      (resetResolved setup token target).outcome reply (s.printing (typed (resetLine token))) := by
  let shown := s.printing (typed (resetLine token))
  have hline : ofLine? (resetLine token) = some (.reset token) := (ofLine?_resetWord hplain hne).1
  have hcarried : (feed setup (resetLine token)).outcome reply s =
      (reset setup token).outcome reply shown := feed_command hidle hline
  have hshown : (resolved setup.post token).outcome reply shown.server =
      (.ok target, s.server) := htarget
  rw [hcarried, outcome_reset, outcome_exchange_ok hshown]
  rfl

/-- One that stands for nothing is a bad object. -/
theorem feed_resetLine_missing {s : Scene σ} (hidle : s.terminal.prompt = .idle)
    (hplain : Plain token.toList) (hne : token ≠ "")
    (hmissing : (resolved setup.post token).outcome reply s.server = (.ok none, s.server)) :
    (feed setup (resetLine token)).outcome reply s = (.ok (), s.printing
      (typed (resetLine token) ++ [⟨.error, "fatal: bad object " ++ token⟩])) := by
  have htoken : OneLine token :=
    oneLine_plain.mpr fun hmem => absurd (hplain _ hmem).1 (by decide)
  have hline : OneLine ("fatal: bad object " ++ token) :=
    oneLine_append.mpr ⟨oneLine_plain.mpr (by decide), htoken⟩
  rw [feed_resetLine hidle hplain hne hmissing, resetResolved, sayBadObject, sayError,
    outcome_printing, linesOf_single hline, printing_printing]

/-- A removal takes the password that is remembered. -/
theorem feed_resetLine_remembered {s : Scene σ} {hash : RawText} {password : Json}
    (hidle : s.terminal.prompt = .idle) (hplain : Plain token.toList) (hne : token ≠ "")
    (htarget : (resolved setup.post token).outcome reply s.server = (.ok (some hash), s.server))
    (hgiven : rememberedAt s hash = some password) :
    (feed setup (resetLine token)).outcome reply s =
      (delete setup hash password false).outcome reply (s.printing (typed (resetLine token))) := by
  rw [feed_resetLine hidle hplain hne htarget]
  refine (outcome_bind_ok (outcome_remembered? hash _)).trans ?_
  rw [show ((s.printing _).terminal.file.reflog.get? hash).filter Json.isGiven = some password
    from hgiven]

/-- Without one, it asks for it. -/
theorem feed_resetLine_asks {s : Scene σ} {hash : RawText} (hidle : s.terminal.prompt = .idle)
    (hplain : Plain token.toList) (hne : token ≠ "")
    (htarget : (resolved setup.post token).outcome reply s.server = (.ok (some hash), s.server))
    (hnone : rememberedAt s hash = none) :
    (feed setup (resetLine token)).outcome reply s =
      (.ok (), (s.printing (typed (resetLine token))).atPrompt (.deletePassword hash)) := by
  rw [feed_resetLine hidle hplain hne htarget]
  refine (outcome_bind_ok (outcome_remembered? hash _)).trans ?_
  rw [show ((s.printing _).terminal.file.reflog.get? hash).filter Json.isGiven = none from hnone]
  rfl

end Resolving

/-! ## What is listed -/

variable {σ : Type} [KeyValue σ]

/-- A comment that answers one that is not there. -/
def IsOrphan (c : Comment) (site : Site σ) : Prop :=
  ∃ hash : RawText, c.parent = some hash ∧ hash ≠ "" ∧
    ((Store.find hash).outcome site).1 = .ok none

variable [Viewed σ] [TakesAll σ] {settings : Settings} {host salt : String} {setup : Setup}
  {site : Site σ} {l : Ledger}

/-- A service whose hashes were drawn, and that can be asked for the threads of a post, and
can write them. -/
structure Lists (settings : Settings) (host : String) (setup : Setup) (site : Site σ) (l : Ledger) :
    Prop where
  goesBy : GoesBy settings host
  post_ne : setup.post ≠ ""
  address : (Target.ofField? "/comments" "post_id" setup.post).isSome
  keeps : Keeps site.store l
  letters : ∀ c ∈ l.comments, Lettered c
  drawn : ∀ c ∈ l.comments, ∃ hash : String, c.hash = hash ∧ IsDrawn hash
  authors : AuthorsPlain (threadsOn setup.post l)

theorem Lists.given (h : Lists settings host setup site l) (salt : String) :
    (Client.threads setup.post).outcome (replyOf ⟨settings, salt, true⟩ host) site =
      (.ok (threadsOn setup.post l), site) := by
  obtain ⟨target, htarget⟩ := Option.isSome_iff_exists.mp h.address
  exact threads_given h.goesBy rfl h.keeps h.post_ne htarget
    ((isSendable_threadsOn_iff h.letters setup.post).mpr h.authors)

/-- A removal lists nothing that was not listed before, and the comment no more. -/
theorem listed_of_remove {post : String} {hash : RawText} {c : Summary}
    (h : c ∈ listedComments post (Ledger.remove hash l)) :
    c ∈ listedComments post l ∧ c.hash ≠ hash := by
  have hstays {kept : Comment} (hkept : kept ∈ Ledger.ofPost post (Ledger.remove hash l).comments) :
      kept ∈ Ledger.ofPost post l.comments ∧ kept.hash ≠ hash := by
    obtain ⟨hmem, hpost⟩ := List.mem_filter.mp hkept
    rw [Ledger.comments_remove] at hmem
    obtain ⟨hmem, hother⟩ := List.mem_filter.mp hmem
    exact ⟨List.mem_filter.mpr ⟨hmem, hpost⟩, of_decide_eq_true hother⟩
  obtain ⟨kept, hkept, rfl, hshown⟩ := (mem_comments_threadsOf c).mp h
  refine ⟨(mem_comments_threadsOf _).mpr ⟨kept, (hstays hkept).1, rfl, hshown.imp_right ?_⟩,
    (hstays hkept).2⟩
  rintro ⟨root, hroot, hisRoot, hparent⟩
  exact ⟨root, (hstays hroot).1, hisRoot, hparent⟩

omit [TakesAll σ] in
theorem Lists.isDrawn (h : Lists settings host setup site l) {c : Summary}
    (hc : c ∈ listedComments setup.post l) : ∃ hash : String, c.hash = hash ∧ IsDrawn hash := by
  obtain ⟨kept, hkept, rfl, -⟩ := kept_of_listed hc
  exact h.drawn kept hkept

omit [TakesAll σ] in
theorem Lists.remove (h : Lists settings host setup site l) {hash : RawText} {removed : Site σ}
    (hkeeps : Keeps removed.store (Ledger.remove hash l)) :
    Lists settings host setup removed (Ledger.remove hash l) where
  goesBy := h.goesBy
  post_ne := h.post_ne
  address := h.address
  keeps := hkeeps
  letters c hc := by
    rw [Ledger.comments_remove] at hc
    exact h.letters c (List.mem_filter.mp hc).1
  drawn c hc := by
    rw [Ledger.comments_remove] at hc
    exact h.drawn c (List.mem_filter.mp hc).1
  authors c hc := h.authors c (listed_of_remove hc).1

/-! ## What a short token stands for -/

/-- What a short token stands for where these threads are listed. -/
structure StandsFor (reply : Query → Site σ → Reply × Site σ) (post token : String) (site : Site σ)
    (ts : List Thread) (target : Option RawText) : Prop where
  outcome_eq : (resolved post token).outcome reply site = (.ok target, site)
  first : IsFirst token (Thread.comments ts) target
  spares : ∀ d : Comment, ((Store.find d.hash).outcome site).1 = .ok (some d) →
    d.post ≠ post ∨ IsOrphan d site → target ≠ some d.hash

theorem Lists.standsFor (h : Lists settings host setup site l) (salt : String) {token : String}
    (hshort : token.length = shortLength) :
    ∃ target, StandsFor (replyOf ⟨settings, salt, true⟩ host) setup.post token site
      (threadsOn setup.post l) target := by
  have hfirst := isFirst_find? token (listedComments setup.post l)
  refine ⟨_, outcome_resolved (h.given salt) hshort, hfirst, fun d hd hunlisted htarget => ?_⟩
  change ((listedComments setup.post l).find? _).map _ = _ at htarget
  rw [htarget] at hfirst
  obtain ⟨c, hc, hhash, -⟩ := hfirst.mem
  obtain ⟨kept, hkept, rfl, hpost, hshown⟩ := kept_of_listed hc
  -- there is one comment under a hash, and this is it
  have hsame : kept = d := by
    rw [outcome_find h.keeps] at hd
    have hfound := Ledger.withHash?_of_mem h.keeps.distinct hkept
    rw [show kept.hash = d.hash from hhash] at hfound
    exact Option.some.inj (hfound.symm.trans (Except.ok.inj hd))
  subst hsame
  rcases hunlisted with hother | ⟨parent, hparent, hne, habsent⟩
  · exact hother hpost
  · rcases hshown with hroot | ⟨root, hroot, hanswers⟩
    · rw [Comment.isRoot, hparent] at hroot
      exact hne (of_decide_eq_true hroot)
    · rw [hparent] at hanswers
      cases hanswers
      rw [outcome_find h.keeps, Ledger.withHash?_of_mem h.keeps.distinct hroot] at habsent
      cases habsent

/-! ## Removals -/

/-- No other comment has the same short hash. -/
def IsOwnShort (hash : RawText) (comments : List Summary) : Prop :=
  ∀ d ∈ comments, abbreviate d.hash = abbreviate hash → d.hash = hash

/-- A comment was removed by its short hash, which stands for nothing any more. -/
structure IsRemovedShort (reply : Query → Site σ → Reply × Site σ) (setup : Setup)
    (hash short password : String) (site : Site σ) (ended : Scene (Site σ)) : Prop where
  removed : IsRemoved hash password site ended
  missing : (feed setup (resetLine short)).outcome reply ended =
    (.ok (), ended.printing (typed (resetLine short) ++
      [⟨.error, ("fatal: bad object " ++ short : String)⟩]))

/-- What a removal by the short hash of a comment comes to. The password is taken from
what is remembered, or asked for until it is not blank. -/
structure RemovesShort (reply : Query → Site σ → Reply × Site σ) (setup : Setup)
    (hash short : String) (s : Scene (Site σ)) : Prop where
  targets : (resolved setup.post short).outcome reply s.server =
    (.ok (some (hash : RawText)), s.server)
  remembered : ∀ password : String, rememberedAt s hash = some (.text password) →
    Admits hash password s.server → IsRemovedShort reply setup hash short password s.server
      (listen reply setup [resetLine short] s)
  asks : rememberedAt s hash = none →
    (feed setup (resetLine short)).outcome reply s =
      (.ok (), (s.printing (typed (resetLine short))).atPrompt (.deletePassword hash))
  answered : rememberedAt s hash = none → ∀ blanks answer,
    (∀ line ∈ blanks, isBlankText line = true) → Admits hash (strip answer) s.server →
      IsRemovedShort reply setup hash short (strip answer) s.server
        (listen reply setup (resetLine short :: (blanks ++ [answer])) s)

section Removing

variable {c : Summary} {hash short : String}

/-- The short hash of a comment stands for it if it is its own. -/
theorem Lists.targets (salt : String) (h : Lists settings host setup site l)
    (hc : c ∈ listedComments setup.post l) (hhash : c.hash = hash) (hshort : IsShort short hash)
    (hown : IsOwnShort hash (listedComments setup.post l)) :
    (resolved setup.post short).outcome (replyOf ⟨settings, salt, true⟩ host) site =
      (.ok (some (hash : RawText)), site) := by
  obtain ⟨target, htarget⟩ := h.standsFor salt hshort.length_eq
  have hbegins : Begins short c.hash := by
    rw [begins_iff_abbreviate hshort.length_eq, hhash]
    exact hshort.abbreviate_eq
  have honly : ∀ d ∈ listedComments setup.post l, Begins short d.hash → d.hash = c.hash := by
    intro d hd hbegins
    rw [begins_iff_abbreviate hshort.length_eq, ← hshort.abbreviate_eq] at hbegins
    rw [hown d hd hbegins, hhash]
  rw [htarget.outcome_eq, htarget.first.eq_some hc hbegins honly, hhash]

/-- Once a comment is removed, its short hash stands for nothing. -/
theorem Lists.missing (salt : String) {removed : Site σ}
    (h : Lists settings host setup removed (Ledger.remove hash l)) (hshort : IsShort short hash)
    (hown : IsOwnShort hash (listedComments setup.post l)) :
    (resolved setup.post short).outcome (replyOf ⟨settings, salt, true⟩ host) removed =
      (.ok none, removed) := by
  obtain ⟨target, htarget⟩ := h.standsFor salt hshort.length_eq
  rw [htarget.outcome_eq, htarget.first.eq_none fun d hd hbegins => ?_]
  obtain ⟨hlisted, hother⟩ := listed_of_remove hd
  rw [begins_iff_abbreviate hshort.length_eq, ← hshort.abbreviate_eq] at hbegins
  exact hother (hown d hlisted hbegins)

/-- Whoever removed a comment, its short hash is a bad object then. -/
theorem Lists.isRemovedShort (salt : String) (h : Lists settings host setup site l)
    (hshort : IsShort short hash) (hown : IsOwnShort hash (listedComments setup.post l))
    {password : String} (hadmits : Admits hash password site) {ended : Scene (Site σ)}
    (hremoved : IsRemoved hash password site ended) :
    IsRemovedShort (replyOf ⟨settings, salt, true⟩ host) setup hash short password site ended := by
  obtain ⟨found, removed, hdeleted, hkeeps⟩ := delete_of_admits h.keeps hadmits
  obtain ⟨found', hended⟩ := hremoved.made
  rw [hdeleted] at hended
  obtain ⟨-, rfl⟩ := Prod.mk.inj hended
  exact ⟨hremoved, feed_resetLine_missing hremoved.idle hshort.plain hshort.ne_empty
    ((h.remove hkeeps).missing salt hshort hown)⟩

theorem Lists.removesShort (salt : String) {scene : Scene (Site σ)}
    (h : Lists settings host setup scene.server l)
    (hc : c ∈ listedComments setup.post l) (hhash : c.hash = hash) (hshort : IsShort short hash)
    (hown : IsOwnShort hash (listedComments setup.post l))
    (hidle : scene.terminal.prompt = .idle) :
    RemovesShort (replyOf ⟨settings, salt, true⟩ host) setup hash short scene := by
  have hplain := hshort.plain
  have hne := hshort.ne_empty
  have htargets := h.targets salt hc hhash hshort hown
  let reply : Query → Site σ → Reply × Site σ := replyOf ⟨settings, salt, true⟩ host
  let shown := scene.printing (typed (resetLine short))
  constructor
  · exact htargets
  · intro password hgiven hadmits
    rw [listen, feed_resetLine_remembered hidle hplain hne htargets hgiven]
    exact h.isRemovedShort salt hshort hown hadmits
      (isRemoved_delete shown hidle h.goesBy rfl h.keeps hadmits false)
  · exact feed_resetLine_asks hidle hplain hne htargets
  · intro hnone blanks answer hblanks hadmits
    let asking := shown.atPrompt (.deletePassword hash)
    let waited := listen reply setup blanks asking
    have hwaited : Alike asking waited :=
      alike_listen_blank hblanks Step.noConfusion Step.noConfusion
    have hserver : waited.server = scene.server := hwaited.server
    rw [listen, feed_resetLine_asks hidle hplain hne htargets hnone, listen_append]
    rw [← hserver] at h hadmits ⊢
    exact h.isRemovedShort salt hshort hown hadmits
      (isRemoved_of_answer waited h.goesBy rfl h.keeps hwaited.prompt hadmits)

end Removing

/-! ## The commands -/

/-- Whatever a service has been asked, a short token stands for the first comment that is
listed on a post with a name that fits into an address, and whose hash begins with it, if
all the listed authors can be written. The short hash of a comment in a log is the
comment's if no other one has the same, and removes it. -/
theorem short_hashes_resolve {store : σ} {supply : Supply} (hhost : GoesBy settings host)
    (hstore : Keeps store []) (hdigits : ∀ n, IsRandom (supply.digits n)) (requests : Requests)
    (hpost : setup.post ≠ "")
    (haddress : (Target.ofField? "/comments" "post_id" setup.post).isSome) :
    let site := serve settings requests ⟨store, supply⟩
    let reply : Query → Site σ → Reply × Site σ := replyOf ⟨settings, salt, true⟩ host
    ∃ ts, (Store.threads setup.post).outcome site = (.ok ts, site) ∧ (AuthorsPlain ts →
      (∀ token : String, token.length = shortLength →
        ∃ target, StandsFor reply setup.post token site ts target) ∧
      ∀ terminal : State, terminal.prompt = .idle →
        LogsBriefly reply setup "git log --oneline" ⟨terminal, site⟩ ts ∧
          ∀ c ∈ Thread.comments ts, IsOwnShort c.hash (Thread.comments ts) →
            ∃ hash short : String, c.hash = hash ∧ abbreviate c.hash = short ∧
              RemovesShort reply setup hash short ⟨terminal, site⟩) := by
  intro site reply
  obtain ⟨t, ht, hshowable, hworded⟩ := worded_serve settings hstore hdigits requests
  refine ⟨threadsOn setup.post t.store, outcome_threads ht.store setup.post, fun hauthors => ?_⟩
  have hlists : Lists settings host setup site t.store :=
    ⟨hhost, hpost, haddress, ht.store, hshowable.letters, hshowable.hashes, hauthors⟩
  refine ⟨fun _ => hlists.standsFor salt, fun terminal hidle => ⟨?_, ?_⟩⟩
  · exact logsBriefly_of_given ofLine?_oneline hidle (hlists.given salt)
      fun c hc => (brief_of_listed hshowable hworded hc).2
  · intro c hc hown
    obtain ⟨hash, hhash, hdrawn⟩ := hlists.isDrawn hc
    have hshort := isShort_firstChars hdrawn
    rw [hhash] at hown ⊢
    exact ⟨hash, _, rfl, hshort.abbreviate_eq,
      hlists.removesShort salt hc hhash hshort hown hidle⟩

/-- A comment that the last request has made, with a password, can be removed with it. -/
theorem admits_of_create (settings : Settings) (requests : Requests) (start : Site σ)
    (hstart : Keeps start.store []) {hash password : String} (hne : password ≠ "")
    (hsalt : (Password.Salt.ofText? salt).isSome = true) (host post message : String)
    {author : Json} (hauthor : author.isSendable = true) (parent : Option String)
    (habsent : ¬Stored hash (serve settings requests start)) :
    let r := Query.toRequest ⟨"POST", commentsTarget,
      some (NewComment.body post author (.text password) message (parent.map .plain))⟩ host
    Stored hash (serve settings (requests ++ [(salt, r)]) start) →
      Admits hash password (serve settings (requests ++ [(salt, r)]) start) := by
  intro r hmade
  obtain ⟨l, hl, -⟩ := (keeps_serve settings requests ⟨[], hstart, List.forall_mem_nil _⟩).1
  have hlocked := lockedWith_replyOf_create ⟨settings, salt, true⟩ host hl hne hsalt post message
    hauthor parent
  rw [serve_concat] at hmade ⊢
  obtain ⟨c, stored, hhash, hsame, -, hkeeps⟩ := lock_of_new hlocked hl habsent hmade
  rw [Admits, ← hsame]
  exact (Client.admits_iff hkeeps password).mpr (accepts_of_take_eq hhash hne rfl)

/-- The short hash of an answer, and its password after a blank line. -/
theorem short_hashes_resolve_answered :
    let salt := "$2b$04$abcdefghijklmnopqrstuu"
    let setup : Setup := ⟨"intro", "Guest", 0⟩
    let supply : Supply := ⟨fun n => if n = 0 then "0a1b2c3d4e5f60718293a4b5c6d7e8f9" else
      "4e5f60718293a4b5c6d7e8f90a1b2c3d", fun _ => 0, 0, 0⟩
    let created (password : Json) (parent : Option String) : String × Request :=
      (salt, Query.toRequest ⟨"POST", commentsTarget,
        some (NewComment.body "intro" .null password "Hello" (parent.map .plain))⟩ "localhost")
    let requests := [created .null none, created (.text "secret") (some "0a1b2c3d")]
    let site := serve Settings.standard requests ⟨Memory.empty, supply⟩
    let reply : Query → Site Memory → Reply × Site Memory :=
      replyOf ⟨Settings.standard, salt, true⟩ "localhost"
    let s : Scene (Site Memory) := ⟨State.start ⟨.memory, [], []⟩, site⟩
    ((∀ n, IsRandom (supply.digits n)) ∧ setup.post ≠ "" ∧
        (Target.ofField? "/comments" "post_id" setup.post).isSome) ∧
      ((Store.threads setup.post).outcome site).1.toOption.map
          (fun ts => (Thread.comments ts).map Summary.hash) =
        some [("0a1b2c3d" : RawText), "4e5f6071"] ∧
      IsRemovedShort reply setup "4e5f6071" "4e5f607" "secret" site
        (listen reply setup ["git reset --hard 4e5f607", " ", "secret"] s) := by
  intro salt setup supply created requests
  have hstore : Keeps Memory.empty [] := keeps_nil (fun _ => rfl) (fun _ => rfl)
  have hroot : IsRandom "0a1b2c3d4e5f60718293a4b5c6d7e8f9" :=
    ⟨by decide, List.all_eq_true.mp (by decide)⟩
  have hanswer : IsRandom "4e5f60718293a4b5c6d7e8f90a1b2c3d" :=
    ⟨by decide, List.all_eq_true.mp (by decide)⟩
  have hdigits (n : Nat) : IsRandom (supply.digits n) := by
    by_cases h : n = 0
    · simpa [supply, h] using hroot
    · simpa [supply, h] using hanswer
  have haddress : (Target.ofField? "/comments" "post_id" setup.post).isSome := by decide
  have hlisted : ((Store.threads setup.post).outcome (serve Settings.standard requests
      ⟨Memory.empty, supply⟩)).1.toOption.map (fun ts => (Thread.comments ts).map Summary.hash) =
        some [("0a1b2c3d" : RawText), "4e5f6071"] := by
    decide +kernel
  have hauthors : ((Store.threads setup.post).outcome (serve Settings.standard requests
      ⟨Memory.empty, supply⟩)).1.toOption.all (AuthorsPlain ·) = true := by
    decide +kernel
  have habsent : ¬Stored "4e5f6071" (serve Settings.standard [created .null none]
      ⟨Memory.empty, supply⟩) := by
    decide +kernel
  have hmade : Stored "4e5f6071" (serve Settings.standard requests ⟨Memory.empty, supply⟩) := by
    decide +kernel
  have hadmits : Admits "4e5f6071" "secret" (serve Settings.standard requests
      ⟨Memory.empty, supply⟩) :=
    admits_of_create Settings.standard [created .null none] ⟨Memory.empty, supply⟩ hstore
      (by decide) (by decide +kernel) "localhost" "intro" "Hello" rfl (some "0a1b2c3d") habsent
      hmade
  have hopened := @short_hashes_resolve Memory _ _ _ Settings.standard "localhost" salt setup
    Memory.empty supply (goesBy_standard "localhost") hstore hdigits requests (by decide) haddress
  -- the run is not looked into again
  generalize serve Settings.standard requests ⟨Memory.empty, supply⟩ = site at *
  intro site' reply s
  obtain ⟨ts, hts, hresolves⟩ := hopened
  have hhashes : (Thread.comments ts).map Summary.hash = [("0a1b2c3d" : RawText), "4e5f6071"] := by
    rw [hts] at hlisted
    exact Option.some.inj hlisted
  rw [hts] at hauthors
  obtain ⟨-, hcommands⟩ := hresolves (of_decide_eq_true hauthors)
  -- no other comment has its short hash
  have hown : IsOwnShort "4e5f6071" (Thread.comments ts) := by
    intro d hd
    have hmem : d.hash ∈ [("0a1b2c3d" : RawText), "4e5f6071"] := hhashes ▸ List.mem_map_of_mem hd
    revert hmem
    generalize d.hash = hash
    revert hash
    decide
  obtain ⟨c, hc, hhash⟩ : ∃ c ∈ Thread.comments ts, c.hash = "4e5f6071" := by
    rw [← List.mem_map, hhashes]
    decide
  obtain ⟨hash, short, hsame, hshort, hremoves⟩ :=
    (hcommands s.terminal rfl).2 c hc (hhash ▸ hown)
  rw [hhash] at hsame hshort
  cases hsame
  have hseven : abbreviate "4e5f6071" = "4e5f607" := by decide
  cases hseven.symm.trans hshort
  have hline : resetLine "4e5f607" = "git reset --hard 4e5f607" := by decide
  have hstrip : strip "secret" = "secret" := by decide
  have hremoved := hremoves.answered rfl [" "] "secret" (by decide)
  rw [hline, hstrip] at hremoved
  exact ⟨⟨hdigits, by decide, haddress⟩, hlisted, hremoved hadmits⟩

/-! ## A post that cannot be asked for -/

/-- Nothing is listed on a post, and a short token that stands for nothing is refused all
the same. -/
def RefusesShort (post : String) (fault : Client.Fault) : Prop :=
  let salt := "$2b$04$abcdefghijklmnopqrstuu"
  let supply : Supply := ⟨fun _ => "0a1b2c3d4e5f60718293a4b5c6d7e8f9", fun _ => 0, 0, 0⟩
  let site : Site Memory := serve Settings.standard [] ⟨Memory.empty, supply⟩
  (Store.threads post).outcome site = (.ok [], site) ∧
    (resolved post "abcdefg").outcome (replyOf ⟨Settings.standard, salt, true⟩ "localhost") site =
      (.error fault, site)

theorem refusesShort_of_fault {post : String} {fault : Client.Fault}
    (hfault : ∀ (salt : String) (site : Site Memory), (Client.threads post).outcome
      (replyOf ⟨Settings.standard, salt, true⟩ "localhost") site = (.error fault, site)) :
    RefusesShort post fault := by
  unfold RefusesShort
  intro salt supply site
  have hstore : Keeps site.store [] := keeps_nil (fun _ => rfl) (fun _ => rfl)
  exact ⟨outcome_threads hstore post, outcome_resolved_error (hfault salt site) rfl⟩

/-- Such a post has no name, or one that is too long. -/
theorem short_hashes_resolve_unasked :
    RefusesShort "" (.refused (.text "String should have at least 1 character") (some 422)) ∧
      RefusesShort (String.ofList (List.replicate 65537 'a')) .badAddress := by
  have hlong : Target.mostChars ≤ (String.ofList (List.replicate 65537 'a')).toList.length := by
    rw [String.toList_ofList, List.length_replicate]
    decide
  have hnone := Target.ofField?_of_long hlong "/comments" "post_id"
  constructor
  · exact refusesShort_of_fault fun _ _ => threads_unnamed (goesBy_standard "localhost") rfl
  · exact refusesShort_of_fault fun _ site => outcome_threads_unaddressable hnone site

end CommentThreads.Terminal
