/-
CommentThreads.Proofs.Terminal.Show — what `git show` prints.

A service has answered any requests, and an idle terminal is told to show a hash that
is still itself in an address. Then the line prints the comment that the service
stores under exactly this hash, or says that there is none, and nothing is done
(`shows_exactly`).

A hash that an address changes is not looked for as it is typed: behind a question
mark it goes on as a query (`shows_behind_mark`), behind a number sign it is dropped,
escapes are resolved, dot segments are taken away, and with nothing or a slash at its
end it leads elsewhere.
-/
import CommentThreads.Proofs.Client.LookUp
import CommentThreads.Proofs.Terminal.Faults

namespace CommentThreads.Terminal

open CommentThreads.Client CommentThreads.Http CommentThreads.Server CommentThreads.Store
  CommentThreads.Text CommentThreads.Time

/-! ## Lines -/

/-- The lines of a text, which are all of one kind. -/
def linesOf (kind : LineKind) (text : RawText) : List Line :=
  (text.pieces '\n').map (Line.mk kind)

/-- A text without line feeds. -/
def OneLine (text : RawText) : Prop := .char '\n' ∉ text.points

theorem oneLine_plain {s : String} : OneLine s ↔ '\n' ∉ s.toList := by
  simp [OneLine]

theorem oneLine_append {t u : RawText} : OneLine (t ++ u) ↔ OneLine t ∧ OneLine u := by
  rw [OneLine, RawText.points_append, List.mem_append, not_or]
  rfl

/-- The line that shows a text without line feeds. -/
theorem linesOf_single {text : RawText} (h : OneLine text) (kind : LineKind) :
    linesOf kind text = [⟨kind, text⟩] := by
  rw [linesOf, RawText.pieces_of_not_mem h, List.map_singleton]

/-- The lines of a message behind its indent. -/
def messageLines (indent : String) (message : RawText) : List Line :=
  (if message.lines.isEmpty then [("" : RawText)] else message.lines).flatMap fun line =>
    linesOf .output (indent ++ line)

/-- The lines that show a comment, with its dates as they are written. -/
def shownLines (d : Detail) (date : String) (edited : Option String) : List Line :=
  linesOf .hash ("commit " ++ d.summary.hash) ++
    ((d.parent.bind RawText.nonEmpty?).elim [] fun parent =>
      linesOf .output ("Reply-To: " ++ parent)) ++
    linesOf .output ("Author: " ++ d.summary.author) ++
    linesOf .output ("Date:   " ++ date) ++
    (edited.elim [] fun text => linesOf .output ("Edited: " ++ text)) ++
    linesOf .output "" ++ messageLines "    " d.summary.message

/-- The dates of a comment as a terminal writes them. -/
structure Dated (setup : Setup) (d : Detail) (date : String) (edited : Option String) : Prop where
  date : logDate setup.zone d.summary.date = .ok date
  edited : d.updated.mapM (logDate setup.zone) = .ok edited

section Printing

variable {σ α β : Type} {reply : Query → σ → Reply × σ} {dated : Prop} {setup : Setup}

/-- The scene with more lines on the terminal. -/
def Scene.printing (printed : List Line) (s : Scene σ) : Scene σ :=
  { s with terminal := { s.terminal with output := s.terminal.output ++ printed } }

theorem printing_nil (s : Scene σ) : s.printing [] = s := by
  rw [Scene.printing, List.append_nil]

theorem printing_printing (first rest : List Line) (s : Scene σ) :
    (s.printing first).printing rest = s.printing (first ++ rest) := by
  simp only [Scene.printing, List.append_assoc]

/-- Printing puts the lines of a text behind the others. -/
theorem outcome_printing (text : RawText) (kind : LineKind) (s : Scene σ) :
    (print text kind).outcome reply s = (.ok (), s.printing (linesOf kind text)) :=
  outcome_print text kind s

/-- A step that prints some lines, or stops on the way at a date that cannot be written.
It does so only if not all can be. -/
def PrintsUpTo (reply : Query → σ → Reply × σ) (dated : Prop) (a : Session α) (x : α)
    (full : List Line) : Prop :=
  ∀ s, a.outcome reply s = (.ok x, s.printing full) ∨
    ¬dated ∧ ∃ fault printed, printed <+: full ∧
      a.outcome reply s = (.error (.calendar fault), s.printing printed)

theorem printsUpTo_pure (x : α) : PrintsUpTo reply dated (pure x) x [] := by
  intro s
  rw [printing_nil]
  exact .inl (outcome_pure x s)

theorem printsUpTo_print (text : RawText) (kind : LineKind) :
    PrintsUpTo reply dated (print text kind) () (linesOf kind text) :=
  fun s => .inl (outcome_printing text kind s)

theorem printsUpTo_line {text : RawText} (h : OneLine text) (kind : LineKind) :
    PrintsUpTo reply dated (print text kind) () [⟨kind, text⟩] := by
  rw [← linesOf_single h]
  exact printsUpTo_print text kind

theorem printsUpTo_say (text : RawText) :
    PrintsUpTo reply dated (say text) () (linesOf .output text) :=
  printsUpTo_print text .output

theorem printsUpTo_bind {a : Session α} {next : α → Session β} {x : α} {y : β}
    {first rest : List Line} (ha : PrintsUpTo reply dated a x first)
    (hnext : PrintsUpTo reply dated (next x) y rest) :
    PrintsUpTo reply dated (a >>= next) y (first ++ rest) := by
  intro s
  rcases ha s with hok | ⟨hdated, fault, printed, hprinted, herror⟩
  · rw [outcome_bind_ok hok]
    rcases hnext (s.printing first) with hok | ⟨hdated, fault, printed, hprinted, herror⟩
    · exact .inl (by rw [hok, printing_printing])
    · refine .inr ⟨hdated, fault, first ++ printed, ?_, by rw [herror, printing_printing]⟩
      exact (List.prefix_append_right_inj first).mpr hprinted
  · refine .inr ⟨hdated, fault, printed, hprinted.trans (List.prefix_append first rest), ?_⟩
    rw [outcome_bind, herror]

theorem printsUpTo_for {ι : Type} {items : List ι} {shown : ι → List Line}
    {f : ι → PUnit → Session (ForInStep PUnit)}
    (hf : ∀ item ∈ items, ∀ u, PrintsUpTo reply dated (f item u) (.yield u) (shown item)) :
    PrintsUpTo reply dated (do forIn items PUnit.unit f; pure ()) () (items.flatMap shown) := by
  have hloop : PrintsUpTo reply dated (forIn items PUnit.unit f) PUnit.unit
      (items.flatMap shown) := by
    induction items with
    | nil => exact printsUpTo_pure PUnit.unit
    | cons item rest ih =>
      rw [List.forIn_cons, List.flatMap_cons]
      refine printsUpTo_bind (hf item List.mem_cons_self PUnit.unit) ?_
      exact ih fun other hother => hf other (List.mem_cons_of_mem _ hother)
  rw [← List.append_nil (items.flatMap shown)]
  exact printsUpTo_bind hloop (printsUpTo_pure ())

theorem printsUpTo_sayMessage (indent : String) (message : RawText) :
    PrintsUpTo reply dated (sayMessage indent message) () (messageLines indent message) := by
  unfold sayMessage
  refine printsUpTo_for fun line _ u => ?_
  rw [← List.append_nil (linesOf .output (indent ++ line))]
  exact printsUpTo_bind (printsUpTo_print _ _) (printsUpTo_pure _)

/-- Behind a date that can be written a step goes on. -/
theorem printsUpTo_dateLine {d : DateTime} {next : String → Session Unit} {rest : List Line}
    (hdated : dated → ∃ text, logDate setup.zone d = .ok text)
    (hnext : ∀ text, logDate setup.zone d = .ok text →
      PrintsUpTo reply dated (next text) () rest) :
    PrintsUpTo reply dated (dateLine setup d >>= next) () rest := by
  intro s
  cases hdate : logDate setup.zone d with
  | ok text =>
    have hline : (dateLine setup d).outcome reply s = (.ok text, s) := by
      rw [dateLine, hdate]
      rfl
    rw [outcome_bind_ok hline]
    exact hnext text hdate s
  | error fault =>
    have hline : (dateLine setup d).outcome reply s = (.error (.calendar fault), s) := by
      rw [dateLine, hdate]
      rfl
    refine .inr ⟨fun hall => ?_, fault, [], List.nil_prefix, ?_⟩
    · obtain ⟨text, htext⟩ := hdated hall
      rw [hdate] at htext
      cases htext
    · rw [outcome_bind, hline, printing_nil]

theorem printsUpTo_dated {d : DateTime} {text : String} {next : String → Session Unit}
    {rest : List Line} (h : logDate setup.zone d = .ok text)
    (hnext : PrintsUpTo reply dated (next text) () rest) :
    PrintsUpTo reply dated (dateLine setup d >>= next) () rest := by
  refine printsUpTo_dateLine (fun _ => ⟨text, h⟩) fun text' h' => ?_
  rw [h] at h'
  cases h'
  exact hnext

/-- A step that only prints. -/
def Prints (reply : Query → σ → Reply × σ) (a : Session Unit) (printed : List Line) : Prop :=
  ∀ s, a.outcome reply s = (.ok (), s.printing printed)

theorem PrintsUpTo.prints {a : Session Unit} {printed : List Line}
    (h : PrintsUpTo reply True a () printed) : Prints reply a printed :=
  fun s => (h s).resolve_right fun hstops => hstops.1 trivial

/-- What `inspect` says of a comment behind its hash and the one it answers. -/
def sayDetail (setup : Setup) (d : Detail) : Session Unit := do
  say ("Author: " ++ d.summary.author)
  say ("Date:   " ++ (← dateLine setup d.summary.date))
  if let some updated := d.updated then say ("Edited: " ++ (← dateLine setup updated))
  say ""
  sayMessage "    " d.summary.message

theorem inspect_eq (setup : Setup) (hash : String) :
    inspect setup hash = exchange (Client.comment hash)
      (fun d => do
        print ("commit " ++ d.summary.hash) .hash
        if let some parent := d.parent.bind RawText.nonEmpty? then say ("Reply-To: " ++ parent)
        sayDetail setup d)
      (sayNotShown hash) := rfl

theorem printsUpTo_sayDetail {d : Detail} {date : String} {edited : Option String}
    (h : Dated setup d date edited) : PrintsUpTo reply dated (sayDetail setup d) ()
    (linesOf .output ("Author: " ++ d.summary.author) ++
      (linesOf .output ("Date:   " ++ date) ++
        ((edited.elim [] fun text => linesOf .output ("Edited: " ++ text)) ++
          (linesOf .output "" ++ messageLines "    " d.summary.message)))) := by
  have hedited := h.edited
  refine printsUpTo_bind (printsUpTo_say _)
    (printsUpTo_dated h.date (printsUpTo_bind (printsUpTo_say _) ?_))
  have hend : PrintsUpTo reply dated (do
      say ""
      sayMessage "    " d.summary.message) ()
      (linesOf .output "" ++ messageLines "    " d.summary.message) :=
    printsUpTo_bind (printsUpTo_say _) (printsUpTo_sayMessage _ _)
  cases hupdated : d.updated with
  | none =>
    rw [hupdated] at hedited
    cases hedited
    exact hend
  | some updated =>
    rw [hupdated, Option.mapM_some] at hedited
    cases hwritten : logDate setup.zone updated with
    | error fault =>
      rw [hwritten] at hedited
      cases hedited
    | ok text =>
      rw [hwritten] at hedited
      cases hedited
      exact printsUpTo_dated hwritten (printsUpTo_bind (printsUpTo_say _) hend)

/-- What is printed of a comment that is found. -/
theorem outcome_inspect_shown {hash : String} {s : Scene σ} {server : σ} {d : Detail}
    {date : String} {edited : Option String}
    (hfound : (Client.comment hash).outcome reply s.server = (.ok d, server))
    (hdated : Dated setup d date edited) :
    (inspect setup hash).outcome reply s =
      (.ok (), (s.withServer server).printing (shownLines d date edited)) := by
  rw [inspect_eq, outcome_exchange_ok hfound, outcome_bind_ok (outcome_printing _ _ _), shownLines]
  cases d.parent.bind RawText.nonEmpty? with
  | none =>
    dsimp only
    rw [(printsUpTo_sayDetail hdated).prints, printing_printing]
    simp only [Option.elim_none, List.append_nil, List.append_assoc]
  | some parent =>
    dsimp only
    rw [(printsUpTo_bind (printsUpTo_say _) (printsUpTo_sayDetail hdated)).prints,
      printing_printing]
    simp only [Option.elim_some, List.append_assoc]

/-- What is said of a comment that is not found. -/
theorem outcome_inspect_missing {hash : String} {s : Scene σ} {server : σ} {detail : Json}
    (hmissing : (Client.comment hash).outcome reply s.server =
      (.error (.refused detail (some 404)), server)) (hline : '\n' ∉ hash.toList) :
    (inspect setup hash).outcome reply s =
      (.ok (), (s.withServer server).printing [⟨.error, "fatal: bad object " ++ hash⟩]) := by
  have hsingle : OneLine ("fatal: bad object " ++ hash) :=
    oneLine_append.mpr ⟨oneLine_plain.mpr (by decide), oneLine_plain.mpr hline⟩
  have hended : (inspect setup hash).outcome reply s = _ := outcome_exchange_refused hmissing
  rw [hended, sayNotShown, if_pos rfl, sayBadObject, sayError, outcome_printing,
    linesOf_single hsingle]

/-- What is said when the service has failed. -/
theorem outcome_inspect_failed {hash : String} {s : Scene σ} {server : σ}
    (hfailed : (Client.comment hash).outcome reply s.server =
      (.error (.refused (.text "Request failed with status 500") (some 500)), server)) :
    (inspect setup hash).outcome reply s = (.ok (), (s.withServer server).printing
      [⟨.error, "Error: Request failed with status 500"⟩]) := by
  have hended : (inspect setup hash).outcome reply s = _ := outcome_exchange_refused hfailed
  have hsingle : OneLine "Error: Request failed with status 500" := oneLine_plain.mpr (by decide)
  rw [hended, ← linesOf_single hsingle, sayNotShown, if_neg (by decide)]
  exact outcome_printing _ _ _

end Printing

/-! ## What is stored -/

/-- Only hashes that are drawn are kept, no text but an author has a lone half, and a
clock far enough from both ends of the calendar has given every comment dates that can be
shown. -/
structure Showable (t : Site Ledger) : Prop where
  random : ∀ n, IsRandom (t.supply.digits n)
  hashes : ∀ c ∈ t.store.comments, ∃ hash : String, c.hash = hash ∧ IsDrawn hash
  letters : ∀ c ∈ t.store.comments, Lettered c
  shows : (∀ n, WellInside (t.supply.clock n)) → ∀ c ∈ t.store.comments, ShowsWell c

theorem showable_nil {supply : Supply} (hdigits : ∀ n, IsRandom (supply.digits n)) :
    Showable ⟨[], supply⟩ where
  random := hdigits
  hashes := List.forall_mem_nil _
  letters := List.forall_mem_nil _
  shows _ := List.forall_mem_nil _

/-- The comment that is kept under a hash that was typed has a hash that was drawn. -/
theorem Showable.isDrawn {t : Site Ledger} (h : Showable t) {hash : String} {c : Comment}
    (hc : Ledger.withHash? hash t.store.comments = some c) : IsDrawn hash := by
  obtain ⟨drawn, hdrawn, hisDrawn⟩ := h.hashes c (Ledger.mem_of_withHash? hc)
  rw [Ledger.hash_of_withHash? hc] at hdrawn
  exact RawText.plain.inj hdrawn ▸ hisDrawn

theorem isDrawn_turn {config : Config} {t t' : Site Ledger} (hturn : Turn config t t')
    (h : Showable t) : ∀ c ∈ t'.store.comments, ∃ hash : String, c.hash = hash ∧ IsDrawn hash := by
  intro c hmem
  rcases hturn.cases with hstore | ⟨added, lock, hadded, hstore⟩ |
    ⟨other, message, k, -, hstore⟩ | ⟨other, hstore⟩
  · rw [hstore] at hmem
    exact h.hashes c hmem
  · rw [hstore] at hmem
    rcases List.mem_cons.mp hmem with rfl | hold
    · obtain ⟨k, -, -, hdrawn⟩ := hadded.hash_eq
      exact ⟨_, hdrawn, isDrawn_firstChars (h.random k)⟩
    · exact h.hashes c hold
  · rw [hstore, Ledger.comments_edit] at hmem
    obtain ⟨old, hold, rfl⟩ := List.mem_map.mp hmem
    have hhash := h.hashes old hold
    split
    · exact hhash
    · exact hhash
  · rw [hstore, Ledger.comments_remove] at hmem
    exact h.hashes c (List.mem_filter.mp hmem).1

theorem showable_turn {config : Config} {t t' : Site Ledger} (hturn : Turn config t t')
    (h : Showable t) : Showable t' where
  random n := by
    rw [hturn.later.digits_eq]
    exact h.random n
  hashes := isDrawn_turn hturn h
  letters := lettered_turn hturn h.letters
  shows hclock := by
    rw [hturn.clock_eq] at hclock
    have hpresentable : Presentable ⟨.memory, [], []⟩ t :=
      ⟨⟨by simp, by simp⟩, by simp, hclock, h.shows hclock⟩
    exact (presentable_turn hturn hpresentable).comments

/-- Dates that can be shown can be written. -/
theorem dated_of_showsWell {setup : Setup} (hzone : setup.zone.natAbs < 1440) {c : Comment}
    (h : ShowsWell c) : ∃ date edited, Dated setup c.detail date edited := by
  obtain ⟨micros, hcreated, hmicros⟩ := h.created
  have hdate : logDate setup.zone c.detail.summary.date =
      .ok (logText (micros + setup.zone * perMinute) (setup.zone * 60)) := by
    rw [show c.detail.summary.date = .utc micros from hcreated]
    exact logDate_utc hmicros hzone
  have hupdated : ∃ edited, c.detail.updated.mapM (logDate setup.zone) = .ok edited := by
    change ∃ edited, c.updated.mapM (logDate setup.zone) = .ok edited
    cases hd : c.updated with
    | none => exact ⟨none, rfl⟩
    | some d =>
      obtain ⟨micros, rfl, hmicros⟩ := h.updated d hd
      rw [Option.mapM_some, logDate_utc hmicros hzone]
      exact ⟨some _, rfl⟩
  obtain ⟨edited, hedited⟩ := hupdated
  exact ⟨_, edited, hdate, hedited⟩

/-! ## The command -/

/-- The line of an idle terminal as it is shown. -/
def typed (line : String) : List Line := linesOf .command (idleText ++ " " ++ strip line : String)

theorem feed_inspect {σ : Type} {reply : Query → σ → Reply × σ} {setup : Setup}
    {hash line : String} {s : Scene σ} (hidle : s.terminal.prompt = .idle)
    (hline : Command.ofLine? line = some (.inspect hash)) :
    (feed setup line).outcome reply s =
      (inspect setup hash).outcome reply (s.printing (typed line)) := by
  rw [feed_command hidle hline]
  rfl

/-- A service finds a comment under a hash, or finds that there is none. -/
def Finds (site : Site Memory) (hash : String) (found : Option Comment) : Prop :=
  (Store.find hash).outcome site = (.ok found, site)

/-- A line that shows a hash looks for exactly that hash. The comment that is stored
there is given and printed, as far as its author and its dates can be written; where there
is none, the exchange is refused with 404 and one line says so. An author with a lone half
cannot be written, and the service says only that it has failed. -/
structure ShowsExactly (reply : Query → Site Memory → Reply × Site Memory) (setup : Setup)
    (hash line : String) (s : Scene (Site Memory)) : Prop where
  finds : ∃ found, Finds s.server hash found
  hash_eq : ∀ c, Finds s.server hash (some c) → c.hash = hash
  given : ∀ c, Finds s.server hash (some c) → c.author.isPlain = true →
    (Client.comment hash).outcome reply s.server = (.ok c.detail, s.server)
  refused : Finds s.server hash none → ∃ detail,
    (Client.comment hash).outcome reply s.server = (.error (.refused detail (some 404)), s.server)
  shown : ∀ c, Finds s.server hash (some c) → c.author.isPlain = true →
    ∀ date edited, Dated setup c.detail date edited →
    (feed setup line).outcome reply s =
      (.ok (), s.printing (typed line ++ shownLines c.detail date edited))
  unwritten : ∀ c, Finds s.server hash (some c) → c.author.isPlain = false →
    (feed setup line).outcome reply s =
      (.ok (), s.printing (typed line ++ [⟨.error, "Error: Request failed with status 500"⟩]))
  missing : Finds s.server hash none →
    (feed setup line).outcome reply s =
      (.ok (), s.printing (typed line ++ [⟨.error, "fatal: bad object " ++ hash⟩]))
  dated : (∀ n, WellInside (s.server.supply.clock n)) → setup.zone.natAbs < 1440 →
    ∀ c, Finds s.server hash (some c) → ∃ date edited, Dated setup c.detail date edited

section Showing

variable {settings : Settings} {host salt : String} {setup : Setup} {hash line : String}

/-- So it is at a site that keeps a ledger which can be shown. -/
theorem showsExactly_of_showable {s : Scene (Site Memory)} {t : Site Ledger}
    (hhost : GoesBy settings host) (ht : KeepsAt s.server t) (hshowable : Showable t)
    (hfaithful : Faithful hash) (hline : Command.ofLine? line = some (.inspect hash))
    (hidle : s.terminal.prompt = .idle) :
    ShowsExactly (replyOf ⟨settings, salt, true⟩ host) setup hash line s := by
  have hfinds (found : Option Comment) :
      Finds s.server hash found ↔ Ledger.withHash? hash t.store.comments = found := by
    rw [Finds, outcome_find ht.store]
    simp
  have hletters {c : Comment} (hc : Finds s.server hash (some c)) : Lettered c :=
    hshowable.letters c (Ledger.mem_of_withHash? ((hfinds (some c)).mp hc))
  have hfound {c : Comment} (hc : Finds s.server hash (some c)) :
      (Client.comment hash).outcome (replyOf ⟨settings, salt, true⟩ host) s.server =
        (foundAs c, s.server) := by
    have hkept := (hfinds (some c)).mp hc
    exact comment_shown hhost rfl ht hfaithful (hshowable.isDrawn hkept).slash_not_mem hkept
  have hgiven {c : Comment} (hc : Finds s.server hash (some c))
      (hauthor : c.author.isPlain = true) :
      (Client.comment hash).outcome (replyOf ⟨settings, salt, true⟩ host) s.server =
        (.ok c.detail, s.server) := by
    rw [hfound hc, foundAs_of_isPlain (hletters hc) hauthor]
  have hrefused (hnone : Finds s.server hash none) :=
    comment_missing (s := ⟨settings, salt, true⟩) hhost rfl ht hfaithful ((hfinds none).mp hnone)
  constructor
  case finds => exact ⟨_, (hfinds _).mpr rfl⟩
  case hash_eq => exact fun c hc => Ledger.hash_of_withHash? ((hfinds (some c)).mp hc)
  case given => exact fun c hc hauthor => hgiven hc hauthor
  case refused => exact hrefused
  case shown =>
    intro c hc hauthor date edited hwritten
    rw [feed_inspect hidle hline, ← printing_printing]
    exact outcome_inspect_shown (hgiven hc hauthor) hwritten
  case unwritten =>
    intro c hc hauthor
    have hended := hfound hc
    rw [foundAs_of_not_isPlain (hletters hc) hauthor] at hended
    rw [feed_inspect hidle hline, ← printing_printing]
    exact outcome_inspect_failed hended
  case missing =>
    intro hnone
    obtain ⟨detail, hended⟩ := hrefused hnone
    rw [feed_inspect hidle hline, ← printing_printing]
    exact outcome_inspect_missing hended hfaithful.lineFeed_not_mem
  case dated =>
    intro hclock hzone c hc
    rw [ht.supply] at hclock
    exact dated_of_showsWell hzone
      (hshowable.shows hclock c (Ledger.mem_of_withHash? ((hfinds (some c)).mp hc)))

/-- Not so behind a question mark: the comment under the hash before it is shown, though
what was typed is no hash of any comment. -/
theorem shows_behind_mark {s : Scene (Site Memory)} {t : Site Ledger}
    (hhost : GoesBy settings host) (ht : KeepsAt s.server t) (hdrawn : IsDrawn hash) {c : Comment}
    (hc : Ledger.withHash? hash t.store.comments = some c) {rest : String}
    (hrest : Target.IsQuery (commentPath hash) rest.toList)
    (hline : Command.ofLine? line = some (.inspect (hash ++ "?" ++ rest)))
    (hidle : s.terminal.prompt = .idle) {date : String} {edited : Option String}
    (hwritten : c.detail.toJson.isSendable = true) (hdated : Dated setup c.detail date edited) :
    (feed setup line).outcome (replyOf ⟨settings, salt, true⟩ host) s =
      (.ok (), s.printing (typed line ++ shownLines c.detail date edited)) := by
  have hfound : (Client.comment (hash ++ "?" ++ rest)).outcome
      (replyOf ⟨settings, salt, true⟩ host) s.server = (.ok c.detail, s.server) := by
    rw [comment_behind_mark hhost rfl ht hdrawn.faithful hdrawn.slash_not_mem hc hrest, foundAs,
      if_pos hwritten]
  rw [feed_inspect hidle hline, ← printing_printing]
  exact outcome_inspect_shown hfound hdated

/-- Whatever a service has been asked, what it keeps can be shown. -/
theorem showable_serve (settings : Settings) {supply : Supply}
    (hdigits : ∀ n, IsRandom (supply.digits n)) (requests : Requests) :
    ∃ t, KeepsAt (serve settings requests ⟨Memory.empty, supply⟩) t ∧ Showable t := by
  have hempty : KeepsAt (⟨Memory.empty, supply⟩ : Site Memory) ⟨[], supply⟩ :=
    ⟨keeps_nil (fun _ => rfl) (fun _ => rfl), rfl⟩
  have hkept : Kept (fun _ => Showable) ⟨.memory, [], []⟩ (⟨Memory.empty, supply⟩ : Site Memory) :=
    ⟨_, hempty, List.forall_mem_nil _, showable_nil hdigits⟩
  obtain ⟨t, ht, -, hshowable⟩ :=
    kept_serve settings (fun _ _ _ _ hturn h => showable_turn hturn h) requests hkept
  exact ⟨t, ht, hshowable⟩

/-- Whatever a service has been asked, a faithful hash shows the comment that is
stored under it, or that there is none. -/
theorem shows_exactly {supply : Supply} (hhost : GoesBy settings host)
    (hdigits : ∀ n, IsRandom (supply.digits n)) (requests : Requests) (hfaithful : Faithful hash)
    (hline : Command.ofLine? line = some (.inspect hash)) {terminal : State}
    (hidle : terminal.prompt = .idle) :
    ShowsExactly (replyOf ⟨settings, salt, true⟩ host) setup hash line
      ⟨terminal, serve settings requests ⟨Memory.empty, supply⟩⟩ := by
  obtain ⟨t, ht, hshowable⟩ := showable_serve settings hdigits requests
  exact showsExactly_of_showable hhost ht hshowable hfaithful hline hidle

/-- One comment is stored, and is shown; a hash with a blank, a percent sign and a
letter beyond ASCII is not there. -/
theorem shows_exactly_stored :
    let salt := "$2b$04$abcdefghijklmnopqrstuu"
    let setup : Setup := ⟨"intro", "Guest", 0⟩
    let supply : Supply := ⟨fun _ => "0a1b2c3d4e5f60718293a4b5c6d7e8f9", fun _ => 0, 0, 0⟩
    let stored : NewComment := ⟨"intro", none, none, "Hello", none⟩
    let commentsTarget : Target := ⟨"/comments".toList, none⟩
    let requests := [(salt, Query.toRequest ⟨"POST", commentsTarget, some stored.toJson⟩
      "localhost")]
    let s : Scene (Site Memory) := ⟨State.start ⟨.memory, [], []⟩,
      serve Settings.standard requests ⟨Memory.empty, supply⟩⟩
    let reply := replyOf ⟨Settings.standard, salt, true⟩ "localhost"
    GoesBy Settings.standard "localhost" ∧ (∀ n, IsRandom (supply.digits n)) ∧
      s.terminal.prompt = .idle ∧
      ShowsExactly reply setup "0a1b2c3d" "git show 0a1b2c3d" s ∧
      ShowsExactly reply setup "50% of ü" "git show \"50% of ü\"" s := by
  intro salt setup supply stored commentsTarget requests s reply
  have hhost := goesBy_standard "localhost"
  have hrandom : IsRandom "0a1b2c3d4e5f60718293a4b5c6d7e8f9" :=
    ⟨by decide, List.all_eq_true.mp (by decide)⟩
  have hdrawn : IsDrawn "0a1b2c3d" := ⟨by decide, List.all_eq_true.mp (by decide)⟩
  have hcontrols : (commentPath "50% of ü").all (Target.isControl · = false) = true := by decide
  have hodd : Faithful "50% of ü" :=
    ⟨⟨fun c hc => of_decide_eq_true (List.all_eq_true.mp hcontrols c hc), by decide, by decide,
      by decide, by decide, by decide⟩, by decide, by decide⟩
  exact ⟨hhost, fun _ => hrandom, rfl,
    shows_exactly hhost (fun _ => hrandom) requests hdrawn.faithful (by decide +kernel) rfl,
    shows_exactly hhost (fun _ => hrandom) requests hodd (by decide +kernel) rfl⟩

end Showing

end CommentThreads.Terminal
