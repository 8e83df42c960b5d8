/-
CommentThreads.Proofs.Terminal.Oneline — what `git log --oneline` prints.

A service has answered any requests, and an idle terminal lists the threads of a post in
short. Then every listed comment takes one line, in order: its short hash and the first
line of its message, with a mark before it if it is an answer (`logs_briefly`).

A message could have no first line, and a text is cut at line feeds when it is printed.
Neither matters here: no message that is stored is blank (`Worded`), and the first line
of a message ends before any line feed in it.

A post whose name fits into no address can have comments, but they are not listed: the
line fails (`logs_briefly_unaddressed`). Posts with an author that cannot be written are
left out here.
-/
import CommentThreads.Proofs.Terminal.Log

namespace CommentThreads.Terminal

open CommentThreads.Client CommentThreads.Http CommentThreads.Server CommentThreads.Store
  CommentThreads.Text CommentThreads.Time

/-! ## The lines -/

/-- The mark before an answer. -/
def replyMark : String := "  └─ "

/-- The line of a comment in a short log, behind a mark. -/
def briefLine (mark : String) (c : Summary) : Line :=
  ⟨.output, mark ++ abbreviate c.hash ++ " " ++ c.message.lines.headD ""⟩

/-- The lines of a thread in a short log. -/
def briefLines (t : Thread) : List Line :=
  briefLine "" t.root :: t.replies.map (briefLine replyMark)

/-- The lines of a short log. -/
def briefLog (ts : List Thread) : List Line :=
  (if ts.isEmpty then [⟨.muted, "No comments yet."⟩] else []) ++ ts.flatMap briefLines

/-- A line tells of a comment: it has the short hash and the first line of the message,
which has one. -/
def TellsOf (c : Summary) (line : Line) : Prop :=
  ∃ first, c.message.lines.head? = some first ∧
    (line = ⟨.output, abbreviate c.hash ++ " " ++ first⟩ ∨
      line = ⟨.output, replyMark ++ abbreviate c.hash ++ " " ++ first⟩)

/-- A comment that can be told of in one line. -/
structure Brief (c : Summary) : Prop where
  hash : OneLine c.hash
  message : c.message ≠ ""

theorem Brief.head {c : Summary} (h : Brief c) :
    c.message.lines.head? = some (c.message.lines.headD "") := by
  have hsome := (RawText.lines_eq_nil_iff c.message).not.mpr h.message
  obtain ⟨first, rest, hlines⟩ := List.exists_cons_of_ne_nil hsome
  rw [hlines]
  rfl

theorem Brief.tellsOf {c : Summary} (h : Brief c) :
    TellsOf c (briefLine "" c) ∧ TellsOf c (briefLine replyMark c) := by
  refine ⟨⟨_, h.head, .inl ?_⟩, ⟨_, h.head, .inr rfl⟩⟩
  rw [briefLine, RawText.empty_append]

theorem oneLine_abbreviate {hash : RawText} (h : OneLine hash) : OneLine (abbreviate hash) := by
  rw [OneLine, abbreviate, RawText.firstPoints, RawText.points_ofPoints]
  exact fun hmem => h (List.mem_of_mem_take hmem)

/-- The line of a comment is one line. -/
theorem Brief.oneLine {c : Summary} (h : Brief c) {mark : String} (hmark : '\n' ∉ mark.toList) :
    OneLine (briefLine mark c).text := by
  have hfirst : OneLine (c.message.lines.headD "") :=
    RawText.not_mem_of_mem_lines rfl (List.mem_of_mem_head? h.head)
  have hmarked : OneLine (mark ++ abbreviate c.hash) :=
    oneLine_append.mpr ⟨oneLine_plain.mpr hmark, oneLine_abbreviate h.hash⟩
  have hblank : OneLine " " := oneLine_plain.mpr (by decide)
  exact oneLine_append.mpr ⟨oneLine_append.mpr ⟨hmarked, hblank⟩, hfirst⟩

/-- The lines of threads tell of one comment each, in the order of the comments. -/
theorem tellsOf_briefLines {ts : List Thread} (h : ∀ c ∈ Thread.comments ts, Brief c) :
    List.Forall₂ TellsOf (Thread.comments ts) (ts.flatMap briefLines) := by
  induction ts with
  | nil => exact .nil
  | cons t ts ih =>
    obtain ⟨hthread, hrest⟩ := List.forall_mem_append.mp h
    obtain ⟨hroot, hreplies⟩ := List.forall_mem_cons.mp hthread
    have hanswers : List.Forall₂ TellsOf t.replies (t.replies.map (briefLine replyMark)) :=
      List.forall₂_map_right_iff.mpr (List.forall₂_same.mpr fun c hc => (hreplies c hc).tellsOf.2)
    exact List.rel_append (.cons hroot.tellsOf.1 hanswers) (ih hrest)

/-! ## Printing -/

section Printing

variable {σ : Type} {reply : Query → σ → Reply × σ} {dated : Prop} {setup : Setup}

theorem printsUpTo_firstLine {message first : RawText} (h : message.lines.head? = some first) :
    PrintsUpTo reply dated (firstLine message) first [] := by
  obtain ⟨rest, hlines⟩ := List.head?_eq_some_iff.mp h
  rw [firstLine, hlines]
  exact printsUpTo_pure first

theorem printsUpTo_sayThreadShort {t : Thread} (h : ∀ c ∈ t.root :: t.replies, Brief c) :
    PrintsUpTo reply dated (sayThreadShort t) () (briefLines t) := by
  obtain ⟨hroot, hreplies⟩ := List.forall_mem_cons.mp h
  have hrest : PrintsUpTo reply dated (do
      for c in t.replies do
        say (replyMark ++ abbreviate c.hash ++ " " ++ (← firstLine c.message))) ()
      (t.replies.map (briefLine replyMark)) := by
    rw [List.map_eq_flatMap]
    exact printsUpTo_for fun c hc _ => printsUpTo_bind (printsUpTo_firstLine (hreplies c hc).head)
      (printsUpTo_bind (printsUpTo_line ((hreplies c hc).oneLine (by decide)) .output)
        (printsUpTo_pure _))
  have hline : OneLine (abbreviate t.root.hash ++ " " ++ t.root.message.lines.headD "") := by
    have hmarked := hroot.oneLine (by decide : '\n' ∉ "".toList)
    rwa [briefLine, RawText.empty_append] at hmarked
  rw [briefLines, briefLine, RawText.empty_append]
  exact printsUpTo_bind (printsUpTo_firstLine hroot.head)
    (printsUpTo_bind (printsUpTo_line hline .output) hrest)

/-- A short log has no date in it, and is printed as a whole. -/
theorem prints_sayThreads {ts : List Thread} (h : ∀ c ∈ Thread.comments ts, Brief c) :
    Prints reply (sayThreads setup true ts) (briefLog ts) := by
  have hloop : PrintsUpTo reply True (do
      for t in ts do
        sayThreadShort t) () (ts.flatMap briefLines) := by
    refine printsUpTo_for fun t ht u => ?_
    rw [← List.append_nil (briefLines t)]
    exact printsUpTo_bind (printsUpTo_sayThreadShort fun c hc =>
      h c (List.mem_flatMap.mpr ⟨t, ht, hc⟩)) (printsUpTo_pure _)
  apply PrintsUpTo.prints
  unfold sayThreads briefLog
  cases ts with
  | nil => exact printsUpTo_bind (printsUpTo_line (oneLine_plain.mpr (by decide)) .muted) hloop
  | cons t rest => exact hloop

theorem feed_oneline {line : String} {s : Scene σ} (hidle : s.terminal.prompt = .idle)
    (hline : Command.ofLine? line = some (.log true)) :
    (feed setup line).outcome reply s =
      (exchange (Client.threads setup.post) (sayThreads setup true) sayRefusal).outcome reply
        (s.printing (typed line)) := by
  rw [feed_command hidle hline]
  rfl

theorem ofLine?_oneline : Command.ofLine? "git log --oneline" = some (.log true) := by
  decide +kernel

end Printing

/-! ## What is stored -/

/-- Every comment that is kept is on a post with a name, and says something. -/
def Worded (t : Site Ledger) : Prop :=
  ∀ c ∈ t.store.comments, c.post ≠ "" ∧ c.message.isBlank = false

theorem worded_turn {config : Config} {t t' : Site Ledger} (hturn : Turn config t t')
    (h : Worded t) : Worded t' := by
  intro c hc
  rcases hturn.cases with hstore | ⟨added, lock, hadded, hstore⟩ |
    ⟨hash, message, k, hmessage, hstore⟩ | ⟨hash, hstore⟩
  · rw [hstore] at hc
    exact h c hc
  · rw [hstore] at hc
    rcases List.mem_cons.mp hc with rfl | hold
    · exact ⟨hadded.post_ne, hadded.message_ne⟩
    · exact h c hold
  · rw [hstore, Ledger.comments_edit] at hc
    obtain ⟨old, hold, rfl⟩ := List.mem_map.mp hc
    split
    · exact ⟨(h old hold).1, hmessage⟩
    · exact h old hold
  · rw [hstore, Ledger.comments_remove] at hc
    exact h c (List.mem_filter.mp hc).1

section Serving

variable {σ : Type} [KeyValue σ] [Viewed σ] [TakesAll σ]

/-- Whatever a service has been asked, what it keeps has drawn hashes and is worded. -/
theorem worded_serve (settings : Settings) {store : σ} {supply : Supply} (hstore : Keeps store [])
    (hdigits : ∀ n, IsRandom (supply.digits n)) (requests : Requests) :
    ∃ t, KeepsAt (serve settings requests ⟨store, supply⟩) t ∧ Showable t ∧ Worded t := by
  have hstart : Kept (fun _ t => Showable t ∧ Worded t) ⟨.memory, [], []⟩
      (⟨store, supply⟩ : Site σ) :=
    ⟨⟨[], supply⟩, ⟨hstore, rfl⟩, List.forall_mem_nil _, showable_nil hdigits,
      List.forall_mem_nil _⟩
  obtain ⟨t, ht, -, hkept⟩ := kept_serve settings
    (fun _ _ _ _ hturn h => ⟨showable_turn hturn h.1, worded_turn hturn h.2⟩) requests hstart
  exact ⟨t, ht, hkept⟩

end Serving

/-! ## What is listed -/

/-- The comments that are listed on a post, in the order of a log. -/
def listedComments (post : String) (l : Ledger) : List Summary :=
  Thread.comments (threadsOn post l)

/-- What is listed is kept, on this post, and answers a comment that is kept as well if
it answers any. -/
theorem kept_of_listed {post : String} {l : Ledger} {c : Summary}
    (h : c ∈ listedComments post l) :
    ∃ kept ∈ l.comments, kept.summary = c ∧ kept.post = post ∧
      (kept.isRoot = true ∨ ∃ root ∈ l.comments, kept.parent = some root.hash) := by
  obtain ⟨kept, hkept, hsummary, hshown⟩ := (mem_comments_threadsOf c).mp h
  obtain ⟨hmem, hpost⟩ := List.mem_filter.mp hkept
  refine ⟨kept, hmem, hsummary, of_decide_eq_true hpost, hshown.imp_right ?_⟩
  rintro ⟨root, hroot, -, hparent⟩
  exact ⟨root, (List.mem_filter.mp hroot).1, hparent⟩

/-- A comment is listed on a post with a name, and takes one line. -/
theorem brief_of_listed {t : Site Ledger} (hshowable : Showable t) (hworded : Worded t)
    {post : String} {c : Summary} (hc : c ∈ listedComments post t.store) : post ≠ "" ∧ Brief c := by
  obtain ⟨kept, hkept, rfl, hon, -⟩ := kept_of_listed hc
  obtain ⟨hpost, hsaid⟩ := hworded kept hkept
  refine ⟨?_, ?_, ?_⟩
  · rintro rfl
    exact hpost hon
  · exact hshowable.oneLine_hash hc
  · intro hempty
    rw [show kept.message = "" from hempty] at hsaid
    cases hsaid

/-! ## The command -/

/-- What a line that lists these threads in short prints: one line for each comment, in
order. -/
structure LogsBriefly {σ : Type} (reply : Query → σ → Reply × σ) (setup : Setup) (line : String)
    (s : Scene σ) (ts : List Thread) : Prop where
  shown : (feed setup line).outcome reply s = (.ok (), s.printing (typed line ++ briefLog ts))
  each : ts ≠ [] → List.Forall₂ TellsOf (Thread.comments ts) (briefLog ts)

theorem logsBriefly_of_given {σ : Type} {reply : Query → σ → Reply × σ} {setup : Setup}
    {line : String} {s : Scene σ} {ts : List Thread}
    (hline : Command.ofLine? line = some (.log true)) (hidle : s.terminal.prompt = .idle)
    (hgiven : (Client.threads setup.post).outcome reply s.server = (.ok ts, s.server))
    (hbrief : ∀ c ∈ Thread.comments ts, Brief c) : LogsBriefly reply setup line s ts where
  shown := by
    have hfeed : (feed setup line).outcome reply s =
        (sayThreads setup true ts).outcome reply (s.printing (typed line)) := by
      rw [feed_oneline hidle hline]
      exact outcome_exchange_ok hgiven
    rw [hfeed, prints_sayThreads hbrief, printing_printing]
  each hsome := by
    have hlog : briefLog ts = ts.flatMap briefLines := by
      rw [briefLog, List.isEmpty_eq_false_iff.mpr hsome]
      rfl
    rw [hlog]
    exact tellsOf_briefLines hbrief

section Logging

variable {σ : Type} [KeyValue σ] [Viewed σ] [TakesAll σ] {settings : Settings}
  {host salt : String} {setup : Setup} {line : String}

/-- Whatever a service has been asked, a short log of a post whose name fits into an
address prints the comments that are listed, and does not fail, if all their authors can
be written. -/
theorem logs_briefly {store : σ} {supply : Supply} (hhost : GoesBy settings host)
    (hstore : Keeps store []) (hdigits : ∀ n, IsRandom (supply.digits n)) (requests : Requests)
    (hline : Command.ofLine? line = some (.log true)) {terminal : State}
    (hidle : terminal.prompt = .idle)
    (haddress : (Target.ofField? "/comments" "post_id" setup.post).isSome) :
    let site := serve settings requests ⟨store, supply⟩
    let reply : Query → Site σ → Reply × Site σ := replyOf ⟨settings, salt, true⟩ host
    ∃ ts, (Store.threads setup.post).outcome site = (.ok ts, site) ∧
      (ts ≠ [] → AuthorsPlain ts → LogsBriefly reply setup line ⟨terminal, site⟩ ts) := by
  intro site reply
  obtain ⟨t, ht, hshowable, hworded⟩ := worded_serve settings hstore hdigits requests
  obtain ⟨target, htarget⟩ := Option.isSome_iff_exists.mp haddress
  refine ⟨threadsOn setup.post t.store, outcome_threads ht.store setup.post,
    fun hsome hauthors => ?_⟩
  have hbrief (c : Summary) (hc : c ∈ listedComments setup.post t.store) :
      setup.post ≠ "" ∧ Brief c := brief_of_listed hshowable hworded hc
  have hpost : setup.post ≠ "" := by
    obtain ⟨thread, rest, hts⟩ := List.exists_cons_of_ne_nil hsome
    refine (hbrief thread.root ?_).1
    rw [listedComments, hts]
    exact List.mem_cons_self
  have hsendable := (isSendable_threadsOn_iff hshowable.letters setup.post).mpr hauthors
  exact logsBriefly_of_given hline hidle
    (threads_given (s := ⟨settings, salt, true⟩) hhost rfl ht.store hpost htarget hsendable)
    fun c hc => (hbrief c hc).2

end Logging

/-- A message that begins with an empty line, and an answer of two lines. -/
theorem logs_briefly_answered :
    let salt := "$2b$04$abcdefghijklmnopqrstuu"
    let setup : Setup := ⟨"intro", "Guest", 0⟩
    let supply : Supply := ⟨fun n => if n = 0 then "0a1b2c3d4e5f60718293a4b5c6d7e8f9" else
      "4e5f60718293a4b5c6d7e8f90a1b2c3d", fun _ => 0, 0, 0⟩
    let root : NewComment := ⟨"intro", none, none, "\nHello", none⟩
    let answer : NewComment := ⟨"intro", none, none, "Hi\nthere", some ("0a1b2c3d" : RawText)⟩
    let requests := [root, answer].map fun asked =>
      (salt, Query.toRequest ⟨"POST", commentsTarget, some asked.toJson⟩ "localhost")
    let site := serve Settings.standard requests ⟨Memory.empty, supply⟩
    let s : Scene (Site Memory) := ⟨State.start ⟨.memory, [], []⟩, site⟩
    ((∀ n, IsRandom (supply.digits n)) ∧ Command.ofLine? "git log --oneline" = some (.log true) ∧
        (Target.ofField? "/comments" "post_id" setup.post).isSome) ∧
      ((Store.threads setup.post).outcome site).1.toOption.map briefLog =
        some [⟨.output, "0a1b2c3 "⟩, ⟨.output, "  └─ 4e5f607 Hi"⟩] ∧
      ((Store.threads setup.post).outcome site).1.toOption.any (AuthorsPlain ·) = true ∧
      ∃ ts, (Store.threads setup.post).outcome site = (.ok ts, site) ∧ (ts ≠ [] →
        AuthorsPlain ts → LogsBriefly (replyOf ⟨Settings.standard, salt, true⟩ "localhost") setup
          "git log --oneline" s ts) := by
  intro salt setup supply root answer requests site s
  have hstore : Keeps Memory.empty [] := keeps_nil (fun _ => rfl) (fun _ => rfl)
  have hroot : IsRandom "0a1b2c3d4e5f60718293a4b5c6d7e8f9" :=
    ⟨by decide, List.all_eq_true.mp (by decide)⟩
  have hanswer : IsRandom "4e5f60718293a4b5c6d7e8f90a1b2c3d" :=
    ⟨by decide, List.all_eq_true.mp (by decide)⟩
  have hdigits (n : Nat) : IsRandom (supply.digits n) := by
    by_cases h : n = 0
    · simpa [supply, h] using hroot
    · simpa [supply, h] using hanswer
  have haddress : (Target.ofField? "/comments" "post_id" setup.post).isSome := by decide
  exact ⟨⟨hdigits, ofLine?_oneline, haddress⟩, by decide +kernel, by decide +kernel,
    logs_briefly (goesBy_standard "localhost") hstore hdigits requests ofLine?_oneline rfl
      haddress⟩

/-! ## A post whose name fits into no address -/

/-- The first comment there is, without a password. -/
theorem create_first (config : Config) (post message : String) {supply : Supply}
    (hclock : ∀ n, inRange (supply.clock n) = true) :
    ∃ c after, Ledger.create config post message none none none ⟨[], supply⟩ =
      (.ok c, ⟨[⟨c, none⟩], after⟩) ∧ c.post = post ∧ c.parent = none := by
  let drawn := supply.nextDigits.2
  refine ⟨⟨firstChars Comment.hashLength supply.nextDigits.1, post, config.defaultAuthor, message,
    none, .utc drawn.nextTime.1, none⟩, drawn.nextTime.2, ?_, rfl, rfl⟩
  exact if_pos (hclock _)

section Creating

variable {σ : Type} [KeyValue σ] [Viewed σ] [TakesAll σ]

/-- If it is made with a request, it is listed on its post. -/
theorem listed_of_create {settings : Settings} {host salt : String} {site : Site σ}
    (h : Ready ⟨settings, salt, true⟩ host site) (hstore : Keeps site.store [])
    {post message : String} (hpost : post ≠ "") (hmessage : isBlankText message = false)
    (hfits : fits settings message = true) :
    let asked : NewComment := ⟨post, none, none, message, none⟩
    let after := serve settings
      [(salt, Query.toRequest ⟨"POST", commentsTarget, some asked.toJson⟩ host)] site
    ∃ t, (Store.threads post).outcome after = (.ok [t], after) := by
  intro asked after
  let config : Config := Service.config ⟨settings, salt, true⟩
  obtain ⟨c, supply, hcreated, hon, hroot⟩ := create_first config post message h.clock
  obtain ⟨hresult, hkept⟩ := create_refines config post message none none none site
    ⟨[], site.supply⟩ ⟨hstore, rfl⟩
  rw [hcreated] at hresult hkept
  let made := ((Store.create config post message none none none).outcome site).2
  have hmade : (Store.create config post message none none none).outcome site = (.ok c, made) :=
    Prod.ext hresult rfl
  have hagrees := create_agrees h post message none none none
  rw [if_neg (by simp [hpost, hmessage]), if_neg ((fits_iff settings message).mp hfits)] at hagrees
  change _ = overWire site _ ((Store.create config post message none none none).outcome site)
    at hagrees
  rw [hmade] at hagrees
  have hwritable : Query.isWritable ⟨"POST", commentsTarget, some asked.toJson⟩ = true :=
    NewComment.isSendable_toJson post message none none none
  have hafter : after = made :=
    (server_of_asking (replyOf ⟨settings, salt, true⟩ host) hwritable _ site).symm.trans
      (congrArg Prod.snd (outcome_of_told hagrees))
  have hlisted : threadsOf (Ledger.ofPost post (Ledger.comments [⟨c, none⟩])) =
      [⟨c.summary, []⟩] := by
    simp [threadsOf, Ledger.ofPost, Ledger.comments, Comment.isRoot, hroot, hon]
  refine ⟨⟨c.summary, []⟩, ?_⟩
  rw [hafter, ← hlisted]
  exact outcome_threads hkept.store post

end Creating

/-- A comment is listed on a post, and a terminal fails to list it. -/
def FailsBriefly (post : String) : Prop :=
  let salt := "$2b$04$abcdefghijklmnopqrstuu"
  let supply : Supply := ⟨fun _ => "0a1b2c3d4e5f60718293a4b5c6d7e8f9", fun _ => 0, 0, 0⟩
  let stored : NewComment := ⟨post, none, none, "Hello", none⟩
  let site : Site Memory := serve Settings.standard
    [(salt, Query.toRequest ⟨"POST", commentsTarget, some stored.toJson⟩ "localhost")]
    ⟨Memory.empty, supply⟩
  let s : Scene (Site Memory) := ⟨State.start ⟨.memory, [], []⟩, site⟩
  Command.ofLine? "git log --oneline" = some (.log true) ∧
    (∃ t, (Store.threads post).outcome site = (.ok [t], site)) ∧
    (feed ⟨post, "Guest", 0⟩ "git log --oneline").outcome
        (replyOf ⟨Settings.standard, salt, true⟩ "localhost") s =
      (.error (.exchange .badAddress), s.printing (typed "git log --oneline"))

theorem failsBriefly_of_long {post : String} (hlong : Target.mostChars ≤ post.toList.length) :
    FailsBriefly post := by
  unfold FailsBriefly
  intro salt supply stored site
  have hpost : post ≠ "" := by
    rintro rfl
    exact absurd hlong (by decide)
  have hnone : Target.ofField? "/comments" "post_id" post = none :=
    Target.ofField?_of_long hlong _ _
  have hstore : Keeps Memory.empty [] := keeps_nil (fun _ => rfl) (fun _ => rfl)
  have hepoch : inRange 0 = true := by decide +kernel
  have hready : Ready ⟨Settings.standard, salt, true⟩ "localhost"
      (⟨Memory.empty, supply⟩ : Site Memory) :=
    ⟨goesBy_standard _, rfl, by decide +kernel, ⟨[], hstore, List.forall_mem_nil _⟩,
      fun _ => hepoch⟩
  have hfits : fits Settings.standard "Hello" = true := by decide
  have hlisted : ∃ t, (Store.threads post).outcome site = (.ok [t], site) :=
    listed_of_create hready hstore hpost (by decide) hfits
  -- the run is not looked into again
  clear_value site
  refine ⟨ofLine?_oneline, hlisted, ?_⟩
  rw [feed_oneline rfl ofLine?_oneline,
    outcome_exchange_badAddress (outcome_threads_unaddressable hnone _)]
  rfl

/-- Such a post has a name that is too long. -/
theorem logs_briefly_unaddressed : FailsBriefly (String.ofList (List.replicate 65537 'a')) := by
  refine failsBriefly_of_long ?_
  rw [String.toList_ofList, List.length_replicate]
  decide

end CommentThreads.Terminal
