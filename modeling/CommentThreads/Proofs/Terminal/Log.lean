/-
CommentThreads.Proofs.Terminal.Log — what `git log` prints, and who can add to it.

A service has answered any requests, and an idle terminal lists the threads of a post.
Then the lines are `logLines`, up to a date that cannot be written, unless an author that
is listed cannot be written at all (`logs_exactly`). A hash, a date and each line of a
message take one printed line, and a message stands behind its indent. An author does
not: a text is cut at line feeds when it is printed, so what an author has behind one
begins a line of its own.

The lines that begin as a heading are therefore the headings of the listed roots and,
in between, those of such author lines (`headings_logLines`). They are the headings
alone just where no listed author has such a line (`unforged_iff`).
-/
import CommentThreads.Proofs.Store.Arrangement
import CommentThreads.Proofs.Terminal.Show

namespace CommentThreads.Terminal

open CommentThreads.Client CommentThreads.Http CommentThreads.Server CommentThreads.Store
  CommentThreads.Text CommentThreads.Time

/-! ## The lines -/

/-- The lines of a message, each behind its indent. -/
def indentedLines (indent : String) (message : RawText) : List Line :=
  (if message.lines.isEmpty then [("" : RawText)] else message.lines).map fun line =>
    ⟨.output, indent ++ line⟩

/-- A date as it is written, where it can be. -/
def dateText (zone : Int) (d : DateTime) : String := (logDate zone d).toOption.getD ""

/-- The lines of an answer. The author is cut at line feeds. -/
def replyLines (zone : Int) (c : Summary) : List Line :=
  ⟨.muted, "  └─ commit " ++ c.hash⟩ :: linesOf .output ("     Author: " ++ c.author) ++
    [⟨.output, ("     Date:   " ++ dateText zone c.date : String)⟩, ⟨.output, ""⟩] ++
    indentedLines "         " c.message ++ [⟨.output, ""⟩]

/-- The lines of a thread. -/
def threadLines (zone : Int) (t : Thread) : List Line :=
  ⟨.hash, "commit " ++ t.root.hash⟩ :: linesOf .output ("Author: " ++ t.root.author) ++
    [⟨.output, ("Date:   " ++ dateText zone t.root.date : String)⟩, ⟨.output, ""⟩] ++
    indentedLines "    " t.root.message ++ [⟨.output, ""⟩] ++
    t.replies.flatMap (replyLines zone)

/-- The lines of a log. -/
def logLines (zone : Int) (ts : List Thread) : List Line :=
  (if ts.isEmpty then [⟨.muted, "No comments yet."⟩] else []) ++ ts.flatMap (threadLines zone)

/-- Every date of a log can be written. -/
def AllDated (zone : Int) (ts : List Thread) : Prop :=
  ∀ c ∈ Thread.comments ts, ∃ text, logDate zone c.date = .ok text

/-! ## Headings -/

/-- The printed texts that begin as the heading of a thread. -/
def headings (printed : List Line) : List RawText :=
  (printed.map Line.text).filter (·.startsWith "commit ")

/-- The lines of an author behind the first one that begin so. -/
def forgedLines (author : RawText) : List RawText :=
  (author.pieces '\n').tail.filter (·.startsWith "commit ")

theorem headings_append (first rest : List Line) :
    headings (first ++ rest) = headings first ++ headings rest := by
  rw [headings, List.map_append, List.filter_append]
  rfl

theorem headings_flatMap {ι : Type} (items : List ι) (shown : ι → List Line) :
    headings (items.flatMap shown) = items.flatMap fun item => headings (shown item) := by
  induction items with
  | nil => rfl
  | cons item rest ih => rw [List.flatMap_cons, List.flatMap_cons, headings_append, ih]

/-- A start whose first character is another one than that of a heading. -/
def StartsApart (start : String) : Prop := start.toList.head?.any (· ≠ 'c') = true

theorem startsWith_of_startsApart {start : String} (h : StartsApart start) (t : RawText) :
    (start ++ t : RawText).startsWith "commit " = false := by
  rw [StartsApart] at h
  have hheading : "commit ".toList = 'c' :: "ommit ".toList := rfl
  have hchars (s : String) : startsWith (start ++ s) "commit " = false := by
    cases hchars : start.toList with
    | nil =>
      rw [hchars] at h
      cases h
    | cons c rest =>
      rw [hchars, List.head?_cons, Option.any_some, decide_eq_true_eq] at h
      rw [startsWith, String.toList_append, hchars, List.cons_append, hheading, afterStart?,
        if_neg (Ne.symm h)]
      rfl
  cases t with
  | plain s => exact hchars s
  | torn s half rest => exact hchars s

theorem headings_heading (kind : LineKind) (hash : RawText) (rest : List Line) :
    headings (⟨kind, "commit " ++ hash⟩ :: rest) = ("commit " ++ hash) :: headings rest := by
  have hchars (s : String) : startsWith ("commit " ++ s) "commit " = true := by
    simpa [startsWith, following?] using
      congrArg Option.isSome (Command.following?_append "commit " s)
  have hstarts : ("commit " ++ hash : RawText).startsWith "commit " = true := by
    cases hash with
    | plain s => exact hchars s
    | torn s half rest => exact hchars s
  rw [headings, List.map_cons, List.filter_cons_of_pos]
  · rfl
  · exact hstarts

theorem headings_cons_apart {kind : LineKind} {text : RawText} {rest : List Line}
    (h : text.startsWith "commit " = false) : headings (⟨kind, text⟩ :: rest) = headings rest := by
  rw [headings, List.map_cons, List.filter_cons_of_neg (by simp [h])]
  rfl

theorem headings_indentedLines {indent : String} (h : StartsApart indent) (message : RawText) :
    headings (indentedLines indent message) = [] := by
  rw [headings, List.filter_eq_nil_iff]
  intro text htext
  obtain ⟨line, hline, rfl⟩ := List.mem_map.mp htext
  obtain ⟨shown, -, rfl⟩ := List.mem_map.mp hline
  rw [startsWith_of_startsApart h]
  exact Bool.false_ne_true

/-- Of an author, only what stands behind a line feed can begin so. -/
theorem headings_linesOf {start : String} (h : StartsApart start) (hline : '\n' ∉ start.toList)
    (author : RawText) : headings (linesOf .output (start ++ author)) = forgedLines author := by
  have hstart : Point.char '\n' ∉ (RawText.plain start).points := oneLine_plain.mpr hline
  have hpieces : (start ++ author : RawText).pieces '\n' =
      (start ++ RawText.ofPoints ((splitAt (.char '\n') author.points).headD [])) ::
        (author.pieces '\n').tail := by
    rw [RawText.pieces, RawText.points_append, splitAt_prepend hstart, List.map_cons,
      RawText.pieces, List.map_tail, RawText.ofPoints_append]
  rw [linesOf, hpieces, List.map_cons, headings_cons_apart (startsWith_of_startsApart h _),
    headings, List.map_map]
  have htexts : (Line.text ∘ Line.mk .output) = id := rfl
  rw [htexts, List.map_id, forgedLines]

theorem headings_nil : headings [] = [] := rfl

theorem startsWith_empty : (RawText.plain "").startsWith "commit " = false := rfl

theorem startsWith_date {start : String} (h : StartsApart start) (date : String) :
    (RawText.plain (start ++ date)).startsWith "commit " = false :=
  startsWith_of_startsApart h date

theorem headings_replyLines (zone : Int) (c : Summary) :
    headings (replyLines zone c) = forgedLines c.author := by
  have hhead : StartsApart "  └─ commit " := rfl
  have hauthor : StartsApart "     Author: " := rfl
  have hdate : StartsApart "     Date:   " := rfl
  have hindent : StartsApart "         " := rfl
  rw [replyLines, headings_append, headings_append, headings_append,
    headings_cons_apart (startsWith_of_startsApart hhead _), headings_linesOf hauthor (by decide),
    headings_cons_apart (startsWith_date hdate _), headings_indentedLines hindent,
    headings_cons_apart startsWith_empty, headings_nil, List.append_nil, List.append_nil,
    List.append_nil]

theorem headings_threadLines (zone : Int) (t : Thread) :
    headings (threadLines zone t) = ("commit " ++ t.root.hash) ::
      (t.root :: t.replies).flatMap fun c => forgedLines c.author := by
  have hauthor : StartsApart "Author: " := rfl
  have hdate : StartsApart "Date:   " := rfl
  have hindent : StartsApart "    " := rfl
  have hreplies : headings (t.replies.flatMap (replyLines zone)) =
      t.replies.flatMap fun c => forgedLines c.author := by
    simp only [headings_flatMap, headings_replyLines]
  rw [threadLines, List.cons_append, List.cons_append, List.cons_append, List.cons_append,
    headings_heading, headings_append, headings_append, headings_append, headings_append,
    headings_linesOf hauthor (by decide), headings_cons_apart (startsWith_date hdate _),
    headings_indentedLines hindent, headings_cons_apart startsWith_empty, headings_nil,
    List.append_nil, List.append_nil, List.append_nil, hreplies, List.flatMap_cons]

/-- The headings are those of the roots, each with what authors have forged behind it. -/
theorem headings_logLines (zone : Int) (ts : List Thread) :
    headings (logLines zone ts) = ts.flatMap fun t => ("commit " ++ t.root.hash : RawText) ::
      (t.root :: t.replies).flatMap fun c => forgedLines c.author := by
  have hnone : headings (if ts.isEmpty then [⟨.muted, "No comments yet."⟩] else []) = [] := by
    cases ts <;> rfl
  rw [logLines, headings_append, hnone, List.nil_append, headings_flatMap]
  simp only [headings_threadLines]

theorem length_le_flatMap_cons {ι α : Type} (first : ι → α) (more : ι → List α) (items : List ι) :
    items.length ≤ (items.flatMap fun item => first item :: more item).length := by
  induction items with
  | nil => exact Nat.le_refl 0
  | cons item rest ih =>
    simp only [List.flatMap_cons, List.length_append, List.length_cons]
    omega

theorem flatMap_cons_eq_map_iff {ι α : Type} (first : ι → α) (more : ι → List α)
    (items : List ι) : (items.flatMap fun item => first item :: more item) = items.map first ↔
      ∀ item ∈ items, more item = [] := by
  induction items with
  | nil => simp
  | cons item rest ih =>
    rw [List.flatMap_cons, List.map_cons, List.cons_append, List.cons.injEq, eq_self, true_and,
      List.forall_mem_cons, ← ih]
    constructor
    · intro h
      have hlength := congrArg List.length h
      rw [List.length_append, List.length_map] at hlength
      have hmore : more item = [] := by
        have hrest := length_le_flatMap_cons first more rest
        exact List.eq_nil_of_length_eq_zero (by omega)
      rw [hmore, List.nil_append] at h
      exact ⟨hmore, h⟩
    · rintro ⟨hmore, hrest⟩
      rw [hmore, List.nil_append, hrest]

/-- Nothing is forged just where no author that is listed has such a line. -/
theorem unforged_iff (zone : Int) (ts : List Thread) :
    headings (logLines zone ts) = ts.map (fun t => ("commit " ++ t.root.hash : RawText)) ↔
      ∀ c ∈ Thread.comments ts, forgedLines c.author = [] := by
  rw [headings_logLines, flatMap_cons_eq_map_iff]
  simp only [List.flatMap_eq_nil_iff, Thread.comments, List.mem_flatMap]
  constructor
  · rintro h c ⟨t, ht, hc⟩
    exact h t ht c hc
  · exact fun h t ht c hc => h c ⟨t, ht, hc⟩

/-! ## Printing -/

section Printing

variable {σ : Type} {reply : Query → σ → Reply × σ} {dated : Prop} {setup : Setup}

theorem oneLine_empty : OneLine "" := List.not_mem_nil

theorem messageLines_eq {indent : String} (h : '\n' ∉ indent.toList) (message : RawText) :
    messageLines indent message = indentedLines indent message := by
  rw [messageLines, indentedLines, List.map_eq_flatMap]
  refine List.flatMap_congr fun line hline => ?_
  have hsingle : OneLine line := by
    split at hline
    · rw [List.mem_singleton.mp hline]
      exact oneLine_empty
    · exact RawText.not_mem_of_mem_lines rfl hline
  exact linesOf_single (oneLine_append.mpr ⟨oneLine_plain.mpr h, hsingle⟩) .output

theorem dateText_of_ok {zone : Int} {d : DateTime} {text : String} (h : logDate zone d = .ok text) :
    dateText zone d = text := by
  rw [dateText, h]
  rfl

/-- What is said of a comment behind its heading, up to the empty line after it. -/
def saySummary (setup : Setup) (author date indent : String) (c : Summary) (next : Session Unit) :
    Session Unit := do
  say (author ++ c.author)
  say (date ++ (← dateLine setup c.date) : String)
  say ""
  sayMessage indent c.message
  next

theorem sayReply_eq (setup : Setup) (c : Summary) :
    sayReply setup c = (do
      print ("  └─ commit " ++ c.hash) .muted
      saySummary setup "     Author: " "     Date:   " "         " c (say "")) := rfl

theorem sayThread_eq (setup : Setup) (t : Thread) :
    sayThread setup t = (do
      print ("commit " ++ t.root.hash) .hash
      saySummary setup "Author: " "Date:   " "    " t.root do
        say ""
        for reply in t.replies do
          sayReply setup reply) := rfl

theorem printsUpTo_saySummary {author date indent : String} (hdate : '\n' ∉ date.toList)
    (hindent : '\n' ∉ indent.toList) {c : Summary}
    (hdated : dated → ∃ text, logDate setup.zone c.date = .ok text) {next : Session Unit}
    {rest : List Line} (hnext : PrintsUpTo reply dated next () rest) :
    PrintsUpTo reply dated (saySummary setup author date indent c next) ()
      (linesOf .output (author ++ c.author) ++
        ([⟨.output, (date ++ dateText setup.zone c.date : String)⟩] ++ ([⟨.output, ""⟩] ++
          (indentedLines indent c.message ++ rest)))) := by
  refine printsUpTo_bind (printsUpTo_say _) (printsUpTo_dateLine hdated fun text htext => ?_)
  rw [dateText_of_ok htext]
  have hline : OneLine (date ++ text : String) := oneLine_append.mpr
    ⟨oneLine_plain.mpr hdate, oneLine_plain.mpr (lineFeed_not_mem_logDate htext)⟩
  refine printsUpTo_bind (printsUpTo_line hline .output) ?_
  refine printsUpTo_bind (printsUpTo_line oneLine_empty .output) ?_
  rw [← messageLines_eq hindent]
  exact printsUpTo_bind (printsUpTo_sayMessage indent c.message) hnext

theorem printsUpTo_sayReply {c : Summary} (hhash : OneLine c.hash)
    (hdated : dated → ∃ text, logDate setup.zone c.date = .ok text) :
    PrintsUpTo reply dated (sayReply setup c) () (replyLines setup.zone c) := by
  have hhead : OneLine ("  └─ commit " ++ c.hash) :=
    oneLine_append.mpr ⟨oneLine_plain.mpr (by decide), hhash⟩
  have hlines : replyLines setup.zone c = [⟨.muted, "  └─ commit " ++ c.hash⟩] ++
      (linesOf .output ("     Author: " ++ c.author) ++
        ([⟨.output, ("     Date:   " ++ dateText setup.zone c.date : String)⟩] ++
          ([⟨.output, ""⟩] ++ (indentedLines "         " c.message ++ [⟨.output, ""⟩])))) := by
    simp [replyLines]
  rw [sayReply_eq, hlines]
  exact printsUpTo_bind (printsUpTo_line hhead .muted)
    (printsUpTo_saySummary (by decide) (by decide) hdated
      (printsUpTo_line oneLine_empty .output))

theorem printsUpTo_sayThread {t : Thread} (hhash : ∀ c ∈ t.root :: t.replies, OneLine c.hash)
    (hdated : dated → ∀ c ∈ t.root :: t.replies, ∃ text, logDate setup.zone c.date = .ok text) :
    PrintsUpTo reply dated (sayThread setup t) () (threadLines setup.zone t) := by
  have hhead : OneLine ("commit " ++ t.root.hash) :=
    oneLine_append.mpr ⟨oneLine_plain.mpr (by decide), hhash _ List.mem_cons_self⟩
  have hlines : threadLines setup.zone t = [⟨.hash, "commit " ++ t.root.hash⟩] ++
      (linesOf .output ("Author: " ++ t.root.author) ++
        ([⟨.output, ("Date:   " ++ dateText setup.zone t.root.date : String)⟩] ++
          ([⟨.output, ""⟩] ++ (indentedLines "    " t.root.message ++ ([⟨.output, ""⟩] ++
            t.replies.flatMap (replyLines setup.zone)))))) := by
    simp [threadLines]
  rw [sayThread_eq, hlines]
  refine printsUpTo_bind (printsUpTo_line hhead .hash) (printsUpTo_saySummary (by decide)
    (by decide) (fun hall => hdated hall _ List.mem_cons_self) ?_)
  refine printsUpTo_bind (printsUpTo_line oneLine_empty .output) ?_
  refine printsUpTo_for fun c hc u => ?_
  rw [← List.append_nil (replyLines setup.zone c)]
  exact printsUpTo_bind (printsUpTo_sayReply (hhash c (List.mem_cons_of_mem _ hc))
    fun hall => hdated hall c (List.mem_cons_of_mem _ hc)) (printsUpTo_pure _)

/-- A log is printed up to a date that cannot be written. -/
theorem printsUpTo_sayThreads {ts : List Thread}
    (hhash : ∀ c ∈ Thread.comments ts, OneLine c.hash) :
    PrintsUpTo reply (AllDated setup.zone ts) (sayThreads setup false ts) ()
      (logLines setup.zone ts) := by
  have hmem {t : Thread} (ht : t ∈ ts) {c : Summary} (hc : c ∈ t.root :: t.replies) :
      c ∈ Thread.comments ts := List.mem_flatMap.mpr ⟨t, ht, hc⟩
  have hloop : PrintsUpTo reply (AllDated setup.zone ts) (do
      for t in ts do
        sayThread setup t) () (ts.flatMap (threadLines setup.zone)) := by
    refine printsUpTo_for fun t ht u => ?_
    rw [← List.append_nil (threadLines setup.zone t)]
    exact printsUpTo_bind (printsUpTo_sayThread (fun c hc => hhash c (hmem ht hc))
      fun hall c hc => hall c (hmem ht hc)) (printsUpTo_pure _)
  unfold sayThreads logLines
  cases ts with
  | nil => exact printsUpTo_bind (printsUpTo_line (oneLine_plain.mpr (by decide)) .muted) hloop
  | cons t rest => exact hloop

end Printing

/-! ## Messages -/

theorem infix_flatMap_of_mem {ι α : Type} (shown : ι → List α) {item : ι} {items : List ι}
    (h : item ∈ items) : shown item <:+: items.flatMap shown := by
  obtain ⟨before, after, rfl⟩ := List.append_of_mem h
  exact ⟨before.flatMap shown, after.flatMap shown, by simp⟩

/-- Each message of a log stands in it line by line, behind its indent. -/
theorem indentedLines_infix_logLines {zone : Int} {ts : List Thread} {t : Thread} (ht : t ∈ ts) :
    indentedLines "    " t.root.message <:+: logLines zone ts ∧
      ∀ c ∈ t.replies, indentedLines "         " c.message <:+: logLines zone ts := by
  have hthread : threadLines zone t <:+: logLines zone ts :=
    (infix_flatMap_of_mem (threadLines zone) ht).trans (List.suffix_append _ _).isInfix
  constructor
  · refine List.IsInfix.trans ⟨⟨.hash, "commit " ++ t.root.hash⟩ ::
      linesOf .output ("Author: " ++ t.root.author) ++
      [⟨.output, ("Date:   " ++ dateText zone t.root.date : String)⟩, ⟨.output, ""⟩],
      ⟨.output, ""⟩ :: t.replies.flatMap (replyLines zone), ?_⟩ hthread
    simp [threadLines]
  · intro c hc
    have hreply : replyLines zone c <:+: threadLines zone t :=
      (infix_flatMap_of_mem (replyLines zone) hc).trans (List.suffix_append _ _).isInfix
    refine List.IsInfix.trans ⟨⟨.muted, "  └─ commit " ++ c.hash⟩ ::
      linesOf .output ("     Author: " ++ c.author) ++
      [⟨.output, ("     Date:   " ++ dateText zone c.date : String)⟩, ⟨.output, ""⟩],
      [⟨.output, ""⟩], ?_⟩ (hreply.trans hthread)
    simp [replyLines]

/-! ## The command -/

theorem feed_log {σ : Type} {reply : Query → σ → Reply × σ} {setup : Setup} {line : String}
    {s : Scene σ} (hidle : s.terminal.prompt = .idle)
    (hline : Command.ofLine? line = some (.log false)) :
    (feed setup line).outcome reply s =
      (exchange (Client.threads setup.post) (sayThreads setup false) sayRefusal).outcome reply
        (s.printing (typed line)) := by
  rw [feed_command hidle hline]
  rfl

/-- How the threads of a post are printed: all of them, as far as their dates can be
written. The lines that begin as a heading are the headings of the roots with forged
ones behind them, and only an author can forge one. -/
structure LogsThreads (reply : Query → Site Memory → Reply × Site Memory) (setup : Setup)
    (line : String) (s : Scene (Site Memory)) (ts : List Thread) : Prop where
  shown : AllDated setup.zone ts → (feed setup line).outcome reply s =
    (.ok (), s.printing (typed line ++ logLines setup.zone ts))
  ended : (feed setup line).outcome reply s =
      (.ok (), s.printing (typed line ++ logLines setup.zone ts)) ∨
    ∃ fault printed, printed <+: logLines setup.zone ts ∧ (feed setup line).outcome reply s =
      (.error (.calendar fault), s.printing (typed line ++ printed))
  dated : (∀ n, WellInside (s.server.supply.clock n)) → setup.zone.natAbs < 1440 →
    AllDated setup.zone ts
  heads : headings (logLines setup.zone ts) = ts.flatMap fun t =>
    ("commit " ++ t.root.hash : RawText) ::
      (t.root :: t.replies).flatMap fun c => forgedLines c.author
  unforged : headings (logLines setup.zone ts) =
      ts.map (fun t => ("commit " ++ t.root.hash : RawText)) ↔
    ∀ c ∈ Thread.comments ts, forgedLines c.author = []
  messages : ∀ t ∈ ts, indentedLines "    " t.root.message <:+: logLines setup.zone ts ∧
    ∀ c ∈ t.replies, indentedLines "         " c.message <:+: logLines setup.zone ts

/-- What a line that asks for the log prints. The threads are those that are listed, and
where an author in them cannot be written, the service says only that it has failed. A
post without a name is refused, and one that fits into no address is not asked for. -/
structure LogsExactly (reply : Query → Site Memory → Reply × Site Memory) (setup : Setup)
    (line : String) (s : Scene (Site Memory)) : Prop where
  listed : setup.post ≠ "" → (Target.ofField? "/comments" "post_id" setup.post).isSome →
    ∃ ts, (Store.threads setup.post).outcome s.server = (.ok ts, s.server) ∧
      (AuthorsPlain ts → LogsThreads reply setup line s ts) ∧
      (¬AuthorsPlain ts → (feed setup line).outcome reply s = (.ok (), s.printing (typed line ++
        [⟨.error, "Error: Request failed with status 500"⟩])))
  unnamed : setup.post = "" → (feed setup line).outcome reply s = (.ok (), s.printing (typed line ++
    [⟨.error, "Error: String should have at least 1 character"⟩]))
  unaddressed : Target.ofField? "/comments" "post_id" setup.post = none →
    (feed setup line).outcome reply s =
      (.error (.exchange .badAddress), s.printing (typed line))

section Logging

variable {settings : Settings} {host salt : String} {setup : Setup} {line : String}

/-- Threads that an exchange gives are printed so, whoever answers it. -/
theorem logsThreads_of_given {reply : Query → Site Memory → Reply × Site Memory}
    {s : Scene (Site Memory)} {ts : List Thread}
    (hline : Command.ofLine? line = some (.log false)) (hidle : s.terminal.prompt = .idle)
    (hgiven : (Client.threads setup.post).outcome reply s.server = (.ok ts, s.server))
    (hhash : ∀ c ∈ Thread.comments ts, OneLine c.hash)
    (hdated : (∀ n, WellInside (s.server.supply.clock n)) → setup.zone.natAbs < 1440 →
      AllDated setup.zone ts) :
    LogsThreads reply setup line s ts := by
  have hfeed : (feed setup line).outcome reply s =
      (sayThreads setup false ts).outcome reply (s.printing (typed line)) := by
    rw [feed_log hidle hline]
    exact outcome_exchange_ok hgiven
  have hprints : PrintsUpTo reply (AllDated setup.zone ts) (sayThreads setup false ts) ()
      (logLines setup.zone ts) := printsUpTo_sayThreads hhash
  constructor
  case shown =>
    intro hall
    rcases hprints (s.printing (typed line)) with hok | ⟨hnot, -⟩
    · rw [hfeed, hok, printing_printing]
    · exact absurd hall hnot
  case ended =>
    rcases hprints (s.printing (typed line)) with hok | ⟨-, fault, printed, hprinted, herror⟩
    · exact .inl (by rw [hfeed, hok, printing_printing])
    · exact .inr ⟨fault, printed, hprinted, by rw [hfeed, herror, printing_printing]⟩
  case dated => exact hdated
  case heads => exact headings_logLines setup.zone ts
  case unforged => exact unforged_iff setup.zone ts
  case messages => exact fun t ht => indentedLines_infix_logLines ht

/-- A comment that is listed is stored. -/
theorem exists_of_mem_threadsOn {post : String} {l : Ledger} {c : Summary}
    (hc : c ∈ Thread.comments (threadsOn post l)) : ∃ kept ∈ l.comments, kept.summary = c := by
  obtain ⟨kept, hkept, hsummary, -⟩ := (mem_comments_threadsOf c).mp hc
  exact ⟨kept, (List.mem_filter.mp hkept).1, hsummary⟩

/-- A hash that is listed takes one line. -/
theorem Showable.oneLine_hash {t : Site Ledger} (h : Showable t) {post : String} {c : Summary}
    (hc : c ∈ Thread.comments (threadsOn post t.store)) : OneLine c.hash := by
  obtain ⟨kept, hkept, rfl⟩ := exists_of_mem_threadsOn hc
  obtain ⟨hash, hhash, hdrawn⟩ := h.hashes kept hkept
  have hline : OneLine hash := oneLine_plain.mpr hdrawn.faithful.lineFeed_not_mem
  rw [show kept.summary.hash = hash from hhash]
  exact hline

theorem logsThreads_of_showable {s : Scene (Site Memory)} {t : Site Ledger}
    (hhost : GoesBy settings host) (ht : KeepsAt s.server t) (hshowable : Showable t)
    (hline : Command.ofLine? line = some (.log false)) (hidle : s.terminal.prompt = .idle)
    (hpost : setup.post ≠ "")
    (haddress : (Target.ofField? "/comments" "post_id" setup.post).isSome)
    (hauthors : AuthorsPlain (threadsOn setup.post t.store)) :
    LogsThreads (replyOf ⟨settings, salt, true⟩ host) setup line s
      (threadsOn setup.post t.store) := by
  obtain ⟨target, htarget⟩ := Option.isSome_iff_exists.mp haddress
  have hsendable := (isSendable_threadsOn_iff hshowable.letters setup.post).mpr hauthors
  have hgiven := threads_given (s := ⟨settings, salt, true⟩) hhost rfl ht.store hpost htarget
    hsendable
  refine logsThreads_of_given hline hidle hgiven (fun c hc => hshowable.oneLine_hash hc)
    fun hclock hzone c hc => ?_
  · obtain ⟨kept, hkept, rfl⟩ := exists_of_mem_threadsOn hc
    rw [ht.supply] at hclock
    obtain ⟨date, _, hdated⟩ := dated_of_showsWell hzone (hshowable.shows hclock kept hkept)
    exact ⟨date, hdated.date⟩

/-- What is said when the service refuses to list the threads. -/
theorem feed_log_refused {s : Scene (Site Memory)}
    {reply : Query → Site Memory → Reply × Site Memory}
    (hline : Command.ofLine? line = some (.log false)) (hidle : s.terminal.prompt = .idle)
    {detail said : String} {status : Option Nat} (hsaid : "Error: " ++ detail = said)
    (hsingle : '\n' ∉ said.toList)
    (hrefused : (Client.threads setup.post).outcome reply s.server =
      (.error (.refused (.text detail) status), s.server)) :
    (feed setup line).outcome reply s = (.ok (), s.printing (typed line ++ [⟨.error, said⟩])) := by
  have hended : (exchange (Client.threads setup.post) (sayThreads setup false)
      sayRefusal).outcome reply (s.printing (typed line)) = _ := outcome_exchange_refused hrefused
  rw [feed_log hidle hline, hended, ← printing_printing,
    ← linesOf_single (oneLine_plain.mpr hsingle), ← hsaid]
  exact outcome_printing _ _ _

/-- Whatever a service has been asked, a log prints the threads that are listed, and a
line of it that is no heading of a root begins as one only behind a line feed in an
author. -/
theorem logs_exactly {supply : Supply} (hhost : GoesBy settings host)
    (hdigits : ∀ n, IsRandom (supply.digits n)) (requests : Requests)
    (hline : Command.ofLine? line = some (.log false)) {terminal : State}
    (hidle : terminal.prompt = .idle) :
    LogsExactly (replyOf ⟨settings, salt, true⟩ host) setup line
      ⟨terminal, serve settings requests ⟨Memory.empty, supply⟩⟩ := by
  obtain ⟨t, ht, hshowable⟩ := showable_serve settings hdigits requests
  constructor
  case listed =>
    intro hpost haddress
    refine ⟨threadsOn setup.post t.store, outcome_threads ht.store setup.post,
      logsThreads_of_showable hhost ht hshowable hline hidle hpost haddress, fun hauthors => ?_⟩
    obtain ⟨target, htarget⟩ := Option.isSome_iff_exists.mp haddress
    have htorn : (Listing.toJson (threadsOn setup.post t.store)).isSendable = false :=
      Bool.eq_false_iff.mpr (mt (isSendable_threadsOn_iff hshowable.letters setup.post).mp hauthors)
    exact feed_log_refused hline hidle (by decide) (by decide)
      (threads_torn (s := ⟨settings, salt, true⟩) hhost rfl ht.store hpost htarget htorn)
  case unnamed =>
    intro hpost
    apply feed_log_refused hline hidle
    case hrefused =>
      rw [hpost]
      exact threads_unnamed hhost rfl
    case hsaid => decide
    case hsingle => decide
  case unaddressed =>
    intro hnone
    rw [feed_log hidle hline,
      outcome_exchange_badAddress (outcome_threads_unaddressable hnone _)]
    rfl

/-- An author with a line feed forges a heading. -/
theorem logs_exactly_forged :
    let salt := "$2b$04$abcdefghijklmnopqrstuu"
    let setup : Setup := ⟨"intro", "Guest", 0⟩
    let supply : Supply := ⟨fun _ => "0a1b2c3d4e5f60718293a4b5c6d7e8f9", fun _ => 0, 0, 0⟩
    let author : RawText := "Ann\ncommit deadbeef"
    let stored : NewComment := ⟨"intro", some author, none, "Hello", none⟩
    let commentsTarget : Target := ⟨"/comments".toList, none⟩
    let requests := [(salt, Query.toRequest ⟨"POST", commentsTarget, some stored.toJson⟩
      "localhost")]
    let s : Scene (Site Memory) := ⟨State.start ⟨.memory, [], []⟩,
      serve Settings.standard requests ⟨Memory.empty, supply⟩⟩
    GoesBy Settings.standard "localhost" ∧ (∀ n, IsRandom (supply.digits n)) ∧
      s.terminal.prompt = .idle ∧ Command.ofLine? "git log" = some (.log false) ∧
      LogsExactly (replyOf ⟨Settings.standard, salt, true⟩ "localhost") setup "git log" s ∧
      ((Store.threads setup.post).outcome s.server).1.toOption.map
        (fun ts => headings (logLines setup.zone ts)) =
          some [("commit 0a1b2c3d" : RawText), "commit deadbeef"] := by
  intro salt setup supply author stored commentsTarget requests s
  have hhost := goesBy_standard "localhost"
  have hrandom : IsRandom "0a1b2c3d4e5f60718293a4b5c6d7e8f9" :=
    ⟨by decide, List.all_eq_true.mp (by decide)⟩
  have hline : Command.ofLine? "git log" = some (.log false) := by decide +kernel
  exact ⟨hhost, fun _ => hrandom, rfl, hline,
    logs_exactly hhost (fun _ => hrandom) requests hline rfl, by decide +kernel⟩

end Logging

end CommentThreads.Terminal
