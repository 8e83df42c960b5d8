/-
CommentThreads.Proofs.Terminal.Service — a terminal at a service that others use
as well.

Lines and requests of other clients happen one after the other, and requests may
also arrive while a line is being carried out, before any of the requests that the
line sends (`replyAmong`). What is remembered and stored is `Kept` if the store
keeps a ledger that goes with what is remembered. `Secure` collects what such a
relation has to survive; then it holds after everything that happens
(`sound_happenAll`).
-/
import CommentThreads.Proofs.Client.Endings
import CommentThreads.Proofs.Terminal.Commands

namespace CommentThreads.Terminal

open CommentThreads.Client CommentThreads.Http CommentThreads.Server CommentThreads.Store
  CommentThreads.Text

variable {σ α : Type} [KeyValue σ]

/-! ## Others who ask -/

/-- Requests of other clients, each with the salt that is drawn for it. -/
abbrev Requests := List (String × Request)

/-- A service answers the requests that have arrived, and then one more. -/
def replyAmong (settings : Settings) (host salt : String) (q : Query) (w : Site σ × List Requests) :
    Reply × (Site σ × List Requests) :=
  let answered := replyOf ⟨settings, salt, true⟩ host q (serve settings (w.2.headD []) w.1)
  (answered.1, (answered.2, w.2.tail))

/-- What happens: a line is typed, with the salt that is drawn and the requests that
arrive while it is carried out; or another client sends a request. -/
inductive Happening
  | line (salt : String) (arrivals : List Requests) (text : String)
  | request (salt : String) (r : Request)

/-- A line at a terminal that asks a service. -/
def feedAmong (settings : Settings) (host : String) (setup : Setup) (salt : String)
    (arrivals : List Requests) (text : String) (s : Scene (Site σ)) :
    Except Fault Unit × Scene (Site σ) :=
  let ended := (feed setup text).outcome (replyAmong settings host salt)
    ⟨s.terminal, (s.server, arrivals)⟩
  (ended.1, ⟨ended.2.terminal, ended.2.server.1⟩)

/-- The scene after one happening. -/
def happen (settings : Settings) (host : String) (setup : Setup) (s : Scene (Site σ)) :
    Happening → Scene (Site σ)
  | .line salt arrivals text => (feedAmong settings host setup salt arrivals text s).2
  | .request salt r => s.withServer (serve settings [(salt, r)] s.server)

/-- The scene after several happenings. -/
def happenAll (settings : Settings) (host : String) (setup : Setup) (happenings : List Happening)
    (s : Scene (Site σ)) : Scene (Site σ) :=
  happenings.foldl (happen settings host setup) s

/-- Where nothing has happened yet. -/
def opening (file : StateFile) (store : σ) (supply : Supply) : Scene (Site σ) :=
  ⟨State.start file, ⟨store, supply⟩⟩

/-- An exchange of one request ends among others as it does after them. -/
theorem outcome_among (settings : Settings) (host salt : String) {query : Query}
    (hwritable : query.isWritable = true) (read : FieldReader α) (w : Site σ × List Requests) :
    Exchange.outcome (replyAmong settings host salt) (send query >>= receive read) w =
      ((Exchange.outcome (replyOf ⟨settings, salt, true⟩ host) (send query >>= receive read)
          (serve settings (w.2.headD []) w.1)).1,
        (Exchange.outcome (replyOf ⟨settings, salt, true⟩ host) (send query >>= receive read)
          (serve settings (w.2.headD []) w.1)).2, w.2.tail) := by
  let reply : Query → Site σ → Reply × Site σ := replyOf ⟨settings, salt, true⟩ host
  let before := serve settings (w.2.headD []) w.1
  have hreply : (replyAmong settings host salt query w).1 = (reply query before).1 := rfl
  have hserver := server_of_asking (replyAmong settings host salt) hwritable read w
  have hafter := server_of_asking reply hwritable read before
  refine Prod.ext (result_of_asking _ _ hwritable read hreply) ?_
  rw [hserver, hafter]
  rfl

theorem outcome_among_of_eq {settings : Settings} {host salt : String} {e : Exchange α}
    {query : Query} {read : FieldReader α} (he : e = send query >>= receive read)
    (hwritable : query.isWritable = true) {w : Site σ × List Requests}
    {r : Except Client.Fault α} {after : Site σ}
    (h : e.outcome (replyOf ⟨settings, salt, true⟩ host) (serve settings (w.2.headD []) w.1) =
      (r, after)) :
    e.outcome (replyAmong settings host salt) w = (r, (after, w.2.tail)) := by
  subst he
  rw [outcome_among settings host salt hwritable, h]

theorem feedAmong_eq {settings : Settings} {host salt text : String} {setup : Setup}
    {arrivals : List Requests} {s : Scene (Site σ)} {r : Except Fault Unit}
    {s' : Scene (Site σ × List Requests)}
    (h : (feed setup text).outcome (replyAmong settings host salt)
      ⟨s.terminal, (s.server, arrivals)⟩ = (r, s')) :
    feedAmong settings host setup salt arrivals text s = (r, ⟨s'.terminal, s'.server.1⟩) := by
  rw [feedAmong, h]

/-! ## A relation between what is remembered and what is stored -/

section Keeping

variable [Viewed σ] [TakesAll σ] {settings : Settings} {host : String} {setup : Setup}
  {K : StateFile → Site Ledger → Prop} {allowed : Fault → Prop} {file : StateFile}

/-- The store keeps a ledger that goes with what is remembered. Only an author in it may
have a lone half of a surrogate pair. -/
def Kept (K : StateFile → Site Ledger → Prop) (file : StateFile) (site : Site σ) : Prop :=
  ∃ t, KeepsAt site t ∧ (∀ c ∈ t.store.comments, Lettered c) ∧ K file t

/-- A relation that outlives any request, and the writes of a terminal. Where a write
may fail its fault has to be allowed, and so has what may go wrong with what is
shown. -/
structure Secure (settings : Settings) (host : String) (setup : Setup)
    (K : StateFile → Site Ledger → Prop) (allowed : Fault → Prop) : Prop where
  texts : ∀ file t, K file t → file.OnlyStrings
  turn : ∀ config file t t', Turn config t t' → K file t → K file t'
  address : (Target.ofField? "/comments" "post_id" setup.post).isSome = true ∨
    allowed (.exchange .badAddress)
  shown : ∀ file t, K file t → ∀ c ∈ t.store.comments, Shown allowed setup c.summary ∧
    ∀ d, c.updated = some d → Datable allowed setup d
  writable : ∀ file t, K file t → file.place ≠ .directory ∨ ∀ fault, allowed (.file fault)
  setConfig : ∀ file t, K file t → ∀ key value : String,
    K ((StateFile.setConfig key (.text value)).run.run file).2 t
  forget : ∀ file t, K file t → ∀ hash, K ((StateFile.forget hash).run.run file).2 t
  remember : ∀ config file t, K file t → GoesBy settings host → setup.post ≠ "" →
    ∀ (message : String) (author : Option String) (password parent : Option RawText),
      isBlankText message = false →
      ∀ c,
        (Ledger.create config setup.post message (author.map .plain) password parent t).1 = .ok c →
        ∀ given : String, password.bind RawText.nonEmpty? = some (given : RawText) →
          K ((StateFile.remember c.hash (.text given)).run.run file).2
            (Ledger.create config setup.post message (author.map .plain) password parent t).2

theorem kept_serve (settings : Settings)
    (hturn : ∀ config file t t', Turn config t t' → K file t → K file t') (requests : Requests)
    {site : Site σ} (h : Kept K file site) : Kept K file (serve settings requests site) := by
  induction requests generalizing site with
  | nil => exact h
  | cons request rest ih =>
    obtain ⟨salt, r⟩ := request
    obtain ⟨t, ht, hletters, hk⟩ := h
    obtain ⟨t', ht', hturned⟩ := takesTurn_respond ⟨settings, salt, true⟩ r site t ht
    exact ih ⟨t', ht', lettered_turn hturned hletters, hturn _ _ _ _ hturned hk⟩

theorem kept_replyAmong (settings : Settings) (host salt : String)
    (hturn : ∀ config file t t', Turn config t t' → K file t → K file t') (q : Query)
    {w : Site σ × List Requests} (h : Kept K file w.1) :
    Kept K file (replyAmong settings host salt q w).2.1 :=
  kept_serve settings hturn [(salt, q.toRequest host)] (kept_serve settings hturn (w.2.headD []) h)

/-- It is enough to know how an exchange ends at any service that keeps what goes with
the file. -/
theorem endsAt_among (hturn : ∀ config file t t', Turn config t t' → K file t → K file t')
    (salt : String) {e : Exchange α} {query : Query} {read : FieldReader α}
    (he : e = send query >>= receive read) (hwritable : query.isWritable = true)
    {good : α → Site σ × List Requests → Prop}
    (hends : ∀ site t, KeepsAt site t → (∀ c ∈ t.store.comments, Lettered c) → K file t →
      Ends (replyOf ⟨settings, salt, true⟩ host) e
        (fun a after => ∀ arrivals, good a (after, arrivals)) site)
    {w : Site σ × List Requests} (h : Kept K file w.1) :
    EndsAt (replyAmong settings host salt) (fun w => Kept K file w.1) allowed e good w := by
  subst he
  have hamong := outcome_among settings host salt hwritable read w
  obtain ⟨t, ht, hletters, hk⟩ := kept_serve settings hturn (w.2.headD []) h
  rcases hends _ t ht hletters hk with ⟨a, after, hended, hgood⟩ | ⟨detail, status, after, hended⟩
  · rw [hended] at hamong
    exact endsAt_of_ok hamong (hgood _)
  · have hkept := kept_replyAmong settings host salt hturn query h
    rw [← server_of_asking (replyAmong settings host salt) hwritable read w, hamong,
      hended] at hkept
    rw [hended] at hamong
    exact endsAt_of_refused hamong hkept

theorem shownThread_of_shown {comments : List Comment}
    (h : ∀ c ∈ comments, Shown allowed setup c.summary) :
    ∀ t ∈ threadsOf comments, ShownThread allowed setup t := by
  intro t ht
  obtain ⟨root, hroot, rfl⟩ := List.mem_map.mp ht
  refine ⟨h root (List.mem_filter.mp hroot).1, fun reply hreply => ?_⟩
  obtain ⟨c, hc, rfl⟩ := List.mem_map.mp hreply
  exact h c (List.mem_filter.mp hc).1

/-- The comments in the threads of some comments are among them. -/
theorem isPlain_of_listed {comments : List Comment} (h : ∀ c ∈ comments, Lettered c) :
    ∀ c ∈ Thread.comments (threadsOf comments), c.hash.isPlain = true := by
  intro summary hsummary
  obtain ⟨t, ht, hmem⟩ := List.mem_flatMap.mp hsummary
  obtain ⟨root, hroot, rfl⟩ := List.mem_map.mp ht
  rcases List.mem_cons.mp hmem with rfl | hreply
  · exact (h root (List.mem_filter.mp hroot).1).hash
  · obtain ⟨c, hc, rfl⟩ := List.mem_map.mp hreply
    exact (h c (List.mem_filter.mp hc).1).hash

/-- A service among others supports what is secure. -/
theorem supports_among (h : Secure settings host setup K allowed) (salt : String) :
    Supports (replyAmong settings host salt) setup (fun t => t.isPlain = true)
      (fun file (w : Site σ × List Requests) => Kept K file w.1) allowed where
  typed := RawText.isPlain_plain
  texts file w hw := by
    obtain ⟨t, -, -, hk⟩ := hw
    exact h.texts file t hk
  threads file w hw := by
    cases htarget : Target.ofField? "/comments" "post_id" setup.post with
    | none =>
      have hallowed := h.address.resolve_left (by simp [htarget])
      have hended : (Client.threads setup.post).outcome (replyAmong settings host salt) w = _ :=
        outcome_threads_unaddressable htarget w
      rw [EndsAt, hended]
      exact ⟨hw, hallowed⟩
    | some target =>
      have heq := threads_of_target htarget
      refine endsAt_among h.turn salt heq rfl (fun site t ht hletters hk => ?_) hw
      rw [heq]
      refine (ends_threads rfl ht htarget).imp ?_
      rintro ts after ⟨rfl, rfl⟩ arrivals
      refine ⟨⟨t, ht, hletters, hk⟩, shownThread_of_shown fun c hc => ?_,
        isPlain_of_listed fun c hc => hletters c (List.mem_filter.mp hc).1⟩
      exact (h.shown file t hk c (List.mem_filter.mp hc).1).1
  comment hash haddress file w hw := by
    obtain ⟨target, htarget⟩ := Option.isSome_iff_exists.mp haddress
    have heq := comment_of_target htarget
    refine endsAt_among h.turn salt heq rfl (fun site t ht hletters hk => ?_) hw
    rw [heq]
    refine (ends_comment rfl ht target).imp ?_
    rintro d after ⟨rfl, c, hc, rfl⟩ arrivals
    exact ⟨⟨t, ht, hletters, hk⟩, h.shown file t hk c hc⟩
  create author password message parent file w hw hauthor hpassword := by
    obtain ⟨author, rfl⟩ := RawText.isPlain_iff.mp hauthor
    obtain ⟨password, rfl⟩ := RawText.exists_eq_map_plain hpassword
    have hwritable : Query.isWritable ⟨"POST", commentsTarget, some (NewComment.toJson
        ⟨setup.post, (some author).map .plain, password.map .plain, message,
          parent.map .plain⟩)⟩ = true :=
      NewComment.isSendable_toJson setup.post message (some author) password parent
    refine endsAt_among h.turn salt rfl hwritable (fun site t ht hletters hk => ?_) hw
    refine (ends_create rfl ht setup.post message (some author) password parent).imp ?_
    rintro receipt after ⟨hhost, hpost, hmessage, c, hc, hhash, hafter⟩ arrivals
    have hturn : Turn (Service.config ⟨settings, salt, true⟩) t _ :=
      .create ((some author).map .plain) (password.map .plain) (parent.map .plain) hpost hmessage t
    refine ⟨⟨_, hafter, lettered_turn hturn hletters, h.turn _ _ _ _ hturn hk⟩, ?_⟩
    intro given hgiven
    obtain ⟨typed, -, rfl⟩ := Option.map_eq_some_iff.mp (Ledger.given_eq_some_iff.mp hgiven).1
    rw [hhash]
    exact writes_of_written (StateFile.written_remember _ _ _) (h.writable file t hk)
      ⟨_, hafter, lettered_turn hturn hletters,
        h.remember _ file t hk hhost hpost _ (some author) _ _ hmessage c hc typed hgiven⟩
  update hash password message file w hw hhash hpassword := by
    obtain ⟨hash, rfl⟩ := RawText.isPlain_iff.mp hhash
    obtain ⟨password, rfl⟩ := RawText.isPlain_iff.mp hpassword
    refine endsAt_among h.turn salt rfl rfl (fun site t ht hletters hk => ?_) hw
    refine (ends_update rfl ht hash password message).imp ?_
    rintro notice after ⟨hmessage, hafter⟩ arrivals
    have hturn : Turn ⟨"", ""⟩ t _ := .update hash password hmessage t
    exact ⟨_, hafter, lettered_turn hturn hletters, h.turn _ _ _ _ hturn hk⟩
  delete hash password file w hw hhash hpassword := by
    obtain ⟨hash, rfl⟩ := RawText.isPlain_iff.mp hhash
    obtain ⟨password, rfl⟩ := RawText.isPlain_iff.mp hpassword
    refine endsAt_among h.turn salt rfl rfl (fun site t ht hletters hk => ?_) hw
    refine (ends_delete rfl ht hash password).imp ?_
    rintro notice after ⟨c, -, hafter⟩ arrivals
    have hturn : Turn ⟨"", ""⟩ t _ := .delete hash password t
    have hkept := h.turn _ _ _ _ hturn hk
    exact writes_of_written (StateFile.written_forgetKey _ _) (h.writable file t hk)
      ⟨_, hafter, lettered_turn hturn hletters, h.forget file _ hkept hash⟩
  setConfig key value file w hw := by
    obtain ⟨t, ht, hletters, hk⟩ := hw
    exact writes_of_written (StateFile.written_setConfig _ _ _) (h.writable file t hk)
      ⟨t, ht, hletters, h.setConfig file t hk key value⟩

/-! ## Everything that happens -/

/-- What is remembered and stored at a scene goes together, and its prompt is sound. -/
abbrev Sound (K : StateFile → Site Ledger → Prop) (s : Scene (Site σ)) : Prop :=
  Standing (Prompt.Sound fun t => t.isPlain = true) (Kept K) s

/-- One line among others keeps a scene sound, and fails only as it may. -/
theorem sound_feedAmong (h : Secure settings host setup K allowed) (salt : String)
    (arrivals : List Requests) (text : String) {s : Scene (Site σ)} (hs : Sound K s)
    (haddress : s.terminal.prompt.isIdle = true → ∀ command ∈ Command.ofLine? text,
      ∀ hash ∈ lookedUp? command, Addressable hash ∨ allowed (.exchange .badAddress)) :
    Sound K (feedAmong settings host setup salt arrivals text s).2 ∧
      ∀ fault, (feedAmong settings host setup salt arrivals text s).1 = .error fault →
        allowed fault := by
  let s' : Scene (Site σ × List Requests) := ⟨s.terminal, (s.server, arrivals)⟩
  obtain ⟨hended, hfault⟩ := upholds_feed (s := s') (supports_among h salt) text
    ⟨hs.prompt, hs.kept⟩ haddress
  exact ⟨⟨hended.prompt, hended.kept⟩, hfault⟩

/-- The scene stays sound whatever happens, in any order. -/
theorem sound_happenAll (h : Secure settings host setup K fun _ => True)
    (happenings : List Happening) {s : Scene (Site σ)} (hs : Sound K s) :
    Sound K (happenAll settings host setup happenings s) := by
  induction happenings generalizing s with
  | nil => exact hs
  | cons happening rest ih =>
    refine ih ?_
    cases happening with
    | line salt arrivals text =>
      exact (sound_feedAmong h salt arrivals text hs fun _ _ _ _ _ => .inr trivial).1
    | request salt r => exact ⟨hs.prompt, kept_serve settings h.turn [(salt, r)] hs.kept⟩

theorem Secure.mono {allowed' : Fault → Prop} (h : Secure settings host setup K allowed)
    (hallowed : ∀ fault, allowed fault → allowed' fault) :
    Secure settings host setup K allowed' where
  texts := h.texts
  turn := h.turn
  address := h.address.imp_right (hallowed _)
  shown file t hk c hc := by
    obtain ⟨⟨hline, hdate⟩, hupdated⟩ := h.shown file t hk c hc
    exact ⟨⟨fun hnone => hallowed _ (hline hnone),
      fun fault hfault => hallowed _ (hdate fault hfault)⟩,
      fun d hd fault hfault => hallowed _ (hupdated d hd fault hfault)⟩
  writable file t hk := (h.writable file t hk).imp_right fun hany fault => hallowed _ (hany fault)
  setConfig := h.setConfig
  forget := h.forget
  remember := h.remember

end Keeping

end CommentThreads.Terminal
