/-
CommentThreads.Proofs.Terminal.Reflog — the passwords that a terminal remembers open
their comments.

A password is remembered when the service has answered that the comment is stored.
From then on others may change and remove comments and make new ones, and the
password still opens its comment as long as that is stored (`Remembers`). What could
go wrong is that a comment is removed and its hash is drawn for another one, so the
invariant says something only as long as no hash was drawn twice (`DrawnOnce`).
-/
import CommentThreads.Proofs.Store.Access
import CommentThreads.Proofs.Terminal.Service

namespace CommentThreads.Terminal

open CommentThreads.Client CommentThreads.Server CommentThreads.Store CommentThreads.Text

/-! ## Passwords that open -/

/-- No hash was drawn twice so far. -/
def DrawnOnce (supply : Supply) : Prop :=
  ∀ i j, i < j → j < supply.digitsDrawn →
    firstChars Comment.hashLength (supply.digits i) ≠
      firstChars Comment.hashLength (supply.digits j)

theorem DrawnOnce.earlier {earlier later : Supply} (h : DrawnOnce later)
    (hlater : earlier.Later later) : DrawnOnce earlier := by
  intro i j hlt hdrawn
  rw [← hlater.digits_eq]
  exact h i j hlt (Nat.lt_of_lt_of_le hdrawn hlater.drawn_le)

/-- If a comment is kept, it can be looked up, for its author can be written, and a
password opens it. -/
def Opens (hash : RawText) (password : String) (l : Ledger) : Prop :=
  ∀ p, Ledger.posting? hash l = some p → p.comment.author.isPlain = true ∧
    ∃ stored, p.lock = some stored ∧ Ledger.opens password stored = true

section Opening

variable {hash : RawText} {password : String} {l : Ledger} {c : Comment}

theorem opens_new {salt stored : String} (hauthor : c.author.isPlain = true)
    (hhash : Password.hash? salt password = some stored) (hne : password ≠ "") :
    Opens c.hash password (⟨c, some stored⟩ :: l) := by
  intro p hp
  rw [Ledger.posting?_cons, if_pos rfl] at hp
  cases hp
  obtain ⟨salt', hsalt, hstored, -⟩ := Password.hash?_of_hash hhash password
  exact ⟨hauthor, stored, rfl, (opens_iff stored password).mpr ⟨hne, salt', hsalt, hstored.symm⟩⟩

theorem opens_cons (h : Opens hash password l) (hne : c.hash ≠ hash) (lock : Option String) :
    Opens hash password (⟨c, lock⟩ :: l) := by
  intro p hp
  rw [Ledger.posting?_cons, if_neg hne] at hp
  exact h p hp

theorem opens_edit (h : Opens hash password l) (other message : RawText) (time : Time.DateTime) :
    Opens hash password (Ledger.edit other message time l) := by
  intro p hp
  rw [Ledger.posting?_edit] at hp
  obtain ⟨old, hold, rfl⟩ := Option.map_eq_some_iff.mp hp
  have hopens := h old hold
  split
  · exact hopens
  · exact hopens

theorem opens_remove (h : Opens hash password l) (other : RawText) :
    Opens hash password (Ledger.remove other l) := by
  intro p hp
  rw [Ledger.posting?_remove] at hp
  split at hp
  · cases hp
  · exact h p hp

theorem authorize_of_opens (h : Opens hash password l)
    (hc : Ledger.withHash? hash l.comments = some c) :
    Ledger.authorize hash password l = .ok c := by
  rw [Ledger.withHash?_comments] at hc
  obtain ⟨p, hp, rfl⟩ := Option.map_eq_some_iff.mp hc
  obtain ⟨-, stored, hlock, hopens⟩ := h p hp
  obtain ⟨c, lock⟩ := p
  cases hlock
  rw [Ledger.authorize, hp]
  simp only [hopens, if_true]

theorem isPlain_author_of_opens (h : Opens hash password l)
    (hc : Ledger.withHash? hash l.comments = some c) : c.author.isPlain = true := by
  rw [Ledger.withHash?_comments] at hc
  obtain ⟨p, hp, rfl⟩ := Option.map_eq_some_iff.mp hc
  exact (h p hp).1

end Opening

/-! ## Entries that are right -/

/-- An entry with a hash that was drawn, and with a password that opens its comment. -/
def RightEntry (t : Site Ledger) (entry : StateFile.Key × Json) : Prop :=
  ∃ hash password : String, entry = (.text hash, .text password) ∧ password ≠ "" ∧
    (∃ k < t.supply.digitsDrawn, hash = firstChars Comment.hashLength (t.supply.digits k)) ∧
    Opens hash password t.store

/-- Whatever a request does, an entry stays right. -/
theorem rightEntry_turn {config : Config} {t t' : Site Ledger} {entry : StateFile.Key × Json}
    (hturn : Turn config t t') (honce : DrawnOnce t'.supply) (h : RightEntry t entry) :
    RightEntry t' entry := by
  obtain ⟨hash, password, rfl, hne, ⟨k, hk, hhash⟩, hopens⟩ := h
  have hlater := hturn.later
  have hdrawn : k < t'.supply.digitsDrawn := Nat.lt_of_lt_of_le hk hlater.drawn_le
  refine ⟨hash, password, rfl, hne, ⟨k, hdrawn, by rw [hlater.digits_eq, hhash]⟩, ?_⟩
  rcases hturn.cases with hstore | ⟨c, lock, hadded, hstore⟩ |
    ⟨other, message, n, -, hstore⟩ | ⟨other, hstore⟩
  · rw [hstore]
    exact hopens
  · rw [hstore]
    refine opens_cons hopens ?_ lock
    -- the new comment has a hash that was drawn after this one
    obtain ⟨k', hle, hlt, hnew⟩ := hadded.hash_eq
    have hdiffer := honce k k' (Nat.lt_of_lt_of_le hk hle) hlt
    rw [hlater.digits_eq, ← hhash] at hdiffer
    rw [hnew]
    exact fun hsame => hdiffer (RawText.plain.inj hsame).symm
  · rw [hstore]
    exact opens_edit hopens other message _
  · rw [hstore]
    exact opens_remove hopens other

/-- A table of right entries. There is one only where the service goes by the host and
the post has a name. -/
structure RightReflog (settings : Settings) (host post : String) (reflog : StateFile.Section)
    (t : Site Ledger) : Prop where
  entries : ∀ entry ∈ reflog, RightEntry t entry
  distinct : reflog.keys.Nodup
  served : reflog ≠ [] → GoesBy settings host ∧ post ≠ ""

/-- What is remembered goes with what is stored, at a service that draws from a
supply. -/
structure Remembers (settings : Settings) (host post : String) (supply : Supply) (file : StateFile)
    (t : Site Ledger) : Prop where
  texts : file.OnlyStrings
  digits_eq : t.supply.digits = supply.digits
  clock_eq : t.supply.clock = supply.clock
  right : DrawnOnce t.supply → RightReflog settings host post file.reflog t

/-! ## It stays so -/

section Keeping

variable {settings : Settings} {host post : String} {supply : Supply} {file : StateFile}
  {config : Config} {t t' : Site Ledger}

theorem rightReflog_turn {reflog : StateFile.Section} (hturn : Turn config t t')
    (honce : DrawnOnce t'.supply) (h : RightReflog settings host post reflog t) :
    RightReflog settings host post reflog t' where
  entries entry hentry := rightEntry_turn hturn honce (h.entries entry hentry)
  distinct := h.distinct
  served := h.served

theorem remembers_turn (hturn : Turn config t t')
    (h : Remembers settings host post supply file t) :
    Remembers settings host post supply file t' where
  texts := h.texts
  digits_eq := hturn.later.digits_eq.trans h.digits_eq
  clock_eq := hturn.clock_eq.trans h.clock_eq
  right honce := rightReflog_turn hturn honce (h.right (honce.earlier hturn.later))

/-- A comment that was made is the newest, with what is kept of its password. -/
theorem created_of_ok {message : String} {author password parent : Option RawText} {c : Comment}
    (hcreated : (Ledger.create config post message author password parent t).1 = .ok c) :
    Ledger.IsNew config.defaultAuthor post message author parent t.supply t.store.comments c ∧
      ∃ lock, Ledger.lockFor config.salt password = .ok lock ∧
        (Ledger.create config post message author password parent t).2.store =
          ⟨c, lock⟩ :: t.store := by
  obtain ⟨fault, hfault, -⟩ | ⟨c', hnew, hresult, hstore⟩ :=
    Ledger.create_cases config post message author password parent t
  · rw [hcreated] at hfault
    cases hfault
  · rw [hcreated] at hresult
    cases hlock : Ledger.lockFor config.salt password with
    | error fault =>
      rw [hlock] at hresult
      cases hresult
    | ok lock =>
      rw [hlock] at hresult hstore
      cases hresult
      exact ⟨hnew, lock, rfl, hstore⟩

/-- A password that was given is kept as its hash, and opens what it locks. -/
theorem opens_locked {salt given : String} {password : Option RawText} {lock : Option String}
    (hlock : Ledger.lockFor salt password = .ok lock)
    (hgiven : password.bind RawText.nonEmpty? = some (given : RawText)) {c : Comment}
    (hauthor : c.author.isPlain = true) (l : Ledger) :
    given ≠ "" ∧ Opens c.hash given (⟨c, lock⟩ :: l) := by
  have hsame : Store.given password = some (given : RawText) := hgiven
  have hne : given ≠ "" := fun hempty =>
    (Ledger.given_eq_some_iff.mp hsame).2 (congrArg RawText.plain hempty)
  rw [Ledger.lockFor, hsame] at hlock
  cases hhash : Password.hash? salt given with
  | none =>
    simp only [hhash] at hlock
    cases hlock
  | some stored =>
    simp only [hhash] at hlock
    cases hlock
    exact ⟨hne, opens_new hauthor hhash hne⟩

/-- The answer to a new comment is remembered with the password that was sent. -/
theorem remembers_remember (h : Remembers settings host post supply file t)
    (hhost : GoesBy settings host) (hpost : post ≠ "") {message given : String}
    {author : Option String} {password parent : Option RawText}
    (hmessage : isBlankText message = false) {c : Comment}
    (hcreated :
      (Ledger.create config post message (author.map .plain) password parent t).1 = .ok c)
    (hgiven : password.bind RawText.nonEmpty? = some (given : RawText)) :
    Remembers settings host post supply
      ((StateFile.remember c.hash (.text given)).run.run file).2
      (Ledger.create config post message (author.map .plain) password parent t).2 := by
  have hturn : Turn config t _ := .create (author.map .plain) password parent hpost hmessage t
  have hturned := remembers_turn hturn h
  have hwritten := StateFile.written_remember c.hash (.text given) file
  refine ⟨StateFile.onlyTextsOf_remember h.texts c.hash (RawText.isPlain_plain given),
    hturned.digits_eq, hturned.clock_eq, ?_⟩
  intro honce
  obtain ⟨hentries, hdistinct, -⟩ := hturned.right honce
  rw [hwritten.reflog]
  refine ⟨?_, Entries.nodup_keys_put (.text given) hdistinct, fun _ => ⟨hhost, hpost⟩⟩
  intro entry hentry
  rcases Entries.mem_put hentry with rfl | hold
  · obtain ⟨hnew, lock, hlock, hstore⟩ := created_of_ok hcreated
    obtain ⟨k, -, hlt, hhash⟩ := drawn_of_isNew password hnew
    obtain ⟨hne, hopens⟩ := opens_locked hlock hgiven (hnew.isPlain_author (by simp)) t.store
    rw [hhash] at hopens ⊢
    refine ⟨_, given, rfl, hne, ⟨k, hlt, ?_⟩, ?_⟩
    · rw [hturn.later.digits_eq]
    · rw [hstore]
      exact hopens
  · exact hentries entry hold

/-- A table with fewer entries is right still. -/
theorem remembers_forget (h : Remembers settings host post supply file t) (hash : RawText) :
    Remembers settings host post supply ((StateFile.forget hash).run.run file).2 t := by
  have hwritten := StateFile.written_forgetKey (.text hash) file
  rw [StateFile.forget]
  refine ⟨StateFile.onlyTextsOf_forgetKey h.texts (.text hash), h.digits_eq, h.clock_eq,
    fun honce => ?_⟩
  obtain ⟨hentries, hdistinct, hserved⟩ := h.right honce
  rw [hwritten.reflog]
  refine ⟨fun entry hentry => hentries entry (Entries.mem_erase.mp hentry).1,
    Entries.nodup_keys_erase _ hdistinct, fun hsome => hserved ?_⟩
  rintro hnone
  rw [hnone] at hsome
  exact hsome rfl

theorem remembers_setConfig (h : Remembers settings host post supply file t) (key value : String) :
    Remembers settings host post supply
      ((StateFile.setConfig key (.text value)).run.run file).2 t := by
  have hwritten := StateFile.written_setConfig key (.text value) file
  refine ⟨StateFile.onlyTextsOf_setConfig h.texts key (RawText.isPlain_plain value), h.digits_eq,
    h.clock_eq, ?_⟩
  rw [hwritten.reflog]
  exact h.right

end Keeping

/-- What is remembered survives whatever happens, and any fault on the way. -/
theorem secure_remembers (settings : Settings) (host : String) (setup : Setup) (supply : Supply) :
    Secure settings host setup (Remembers settings host setup.post supply) fun _ => True where
  texts _ _ h := h.texts
  turn _ _ _ _ hturn h := remembers_turn hturn h
  address := .inr trivial
  shown _ _ _ _ _ := ⟨⟨fun _ => trivial, fun _ _ => trivial⟩, fun _ _ _ _ => trivial⟩
  writable _ _ _ := .inr fun _ => trivial
  setConfig _ _ h key value := remembers_setConfig h key value
  forget _ _ h hash := remembers_forget h hash
  remember _ _ _ h hhost hpost _ _ _ _ hmessage _ hcreated _ hgiven :=
    remembers_remember h hhost hpost hmessage hcreated hgiven

theorem remembers_opening {σ : Type} [KeyValue σ] [Viewed σ] (settings : Settings) (host : String)
    (setup : Setup) {file : StateFile} {store : σ} (supply : Supply) (hstore : Keeps store [])
    (hconfig : file.config = []) (hreflog : file.reflog = []) :
    Sound (Remembers settings host setup.post supply) (opening file store supply) := by
  have hempty : KeepsAt (opening file store supply).server ⟨[], supply⟩ := ⟨hstore, rfl⟩
  refine ⟨.idle, _, hempty, List.forall_mem_nil _, ⟨?_, ?_⟩, rfl, rfl, fun _ => ⟨?_, ?_, ?_⟩⟩
  · simp [opening, State.start, hconfig]
  · simp [opening, State.start, hreflog]
  · simp [opening, State.start, hreflog]
  · simp [opening, State.start, hreflog, Entries.keys]
  · simp [opening, State.start, hreflog]

end CommentThreads.Terminal
