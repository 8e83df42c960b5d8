/-
CommentThreads.Proofs.Store.Access — who may change a comment.

A comment that was created with a password keeps the hash of that password,
letter for letter, as long as it is there. It is changed by whoever comes
with a password that is not empty and whose first 72 bytes hash to the same
text under the salt in it, whatever has been done to other comments before.
-/
import CommentThreads.Proofs.Store.History

namespace CommentThreads.Store

open Ledger Time

/-! ## Passwords that a hash accepts -/

/-- A password is accepted by a stored hash: it is not empty, and its first
72 bytes hash to the stored text under the salt and the cost in that text. -/
def Accepts (stored password : String) : Prop :=
  password ≠ "" ∧ ∃ salt, Password.Salt.ofText? stored = some salt ∧
    Password.hashBytes salt ((Text.utf8 password).take 72) = stored

theorem opens_iff (stored password : String) :
    opens password stored = true ↔ Accepts stored password := by
  have hhash : Password.hash? stored password = some stored ↔
      ∃ salt, Password.Salt.ofText? stored = some salt ∧
        Password.hashBytes salt ((Text.utf8 password).take 72) = stored := by
    rw [Password.hash?_plain, Option.map_eq_some_iff]
    rfl
  rw [opens, Accepts, Bool.and_eq_true, decide_eq_true_iff, decide_eq_true_iff, hhash, Ne,
    RawText.plain.injEq]

/-- Only the first 72 bytes count, also where the cut falls inside a
character. -/
theorem accepts_of_take_eq {salt password stored other : String}
    (hstored : Password.hash? salt password = some stored) (hgiven : password ≠ "")
    (hbytes : (Text.utf8 other).take 72 = (Text.utf8 password).take 72) :
    Accepts stored other := by
  have hsame : Password.passwordBytes other = Password.passwordBytes password := hbytes
  obtain ⟨salt, hsalt, hhash, -⟩ := Password.hash?_of_hash hstored other
  refine ⟨?_, salt, hsalt, ?_⟩
  · intro hempty
    rw [← Password.passwordBytes_eq_nil_iff, hsame, Password.passwordBytes_eq_nil_iff] at hempty
    exact hgiven hempty
  · rw [hbytes]
    exact hhash.symm

/-! ## Locks of the comments that are there -/

/-- Every comment that a log says is there has, in the ledger, the lock that
its creation gave to it. The ledger may hold more: a password without a hash
leaves a comment behind whose creation failed. -/
def LocksKept (log : List Event) (l : Ledger) : Prop :=
  ∀ c ∈ live log, ∃ lock, lockFor c.salt c.password = .ok lock ∧ ⟨c.comment, lock⟩ ∈ l

section OneStep

variable {log : List Event} {l : Ledger} (h : LocksKept log l)
include h

theorem LocksKept.unchanged {e : Event} (hcreation : e.creation? = none)
    (hremoves : ∀ hash, e.removes hash = false) (hedit : ∀ hash, e.edit? hash = none) :
    LocksKept (log ++ [e]) l := by
  rw [LocksKept, live_unchanged log hcreation hremoves hedit]
  exact h

theorem LocksKept.fault (op : Operation) (supply : Supply) (fault : Fault) :
    LocksKept (log ++ [⟨op, supply, .error fault⟩]) l := by
  rw [LocksKept, live_fault]
  exact h

theorem LocksKept.more (p : Posting) : LocksKept log (p :: l) := by
  intro c hc
  obtain ⟨lock, hlock, hmem⟩ := h c hc
  exact ⟨lock, hlock, List.mem_cons_of_mem _ hmem⟩

theorem LocksKept.created {salt : String} {post message : RawText}
    {author password parent : Option RawText} {supply : Supply} {c : Comment}
    {lock : Option String} (hlock : lockFor salt password = .ok lock) :
    LocksKept (log ++ [⟨.create salt post message author password parent, supply, .ok c⟩])
      (⟨c, lock⟩ :: l) := by
  intro k hk
  rw [live_create] at hk
  rcases List.mem_append.mp hk with hk | hk
  · exact h.more ⟨c, lock⟩ k hk
  · cases List.mem_singleton.mp hk
    exact ⟨lock, hlock, List.mem_cons_self⟩

theorem LocksKept.edited {hash password message : RawText} {supply : Supply} {c : Comment}
    {time : DateTime} (hc : c.updated = some time) :
    LocksKept (log ++ [⟨.update hash password message, supply, .ok c⟩])
      (edit hash message time l) := by
  intro k hk
  rw [live_update, hc] at hk
  obtain ⟨earlier, hearlier, rfl⟩ := List.mem_map.mp hk
  obtain ⟨lock, hlock, hmem⟩ := h earlier hearlier
  have hedited := List.mem_map_of_mem (f := fun p : Posting =>
    if p.comment.hash = hash then { p with comment := Ledger.edited message time p.comment }
    else p) hmem
  by_cases hhash : hash = earlier.comment.hash
  · rw [if_pos hhash]
    rw [if_pos hhash.symm] at hedited
    exact ⟨lock, hlock, hedited⟩
  · rw [if_neg hhash]
    rw [if_neg (Ne.symm hhash)] at hedited
    exact ⟨lock, hlock, hedited⟩

theorem LocksKept.removed {hash password : RawText} {supply : Supply} {c : Comment} :
    LocksKept (log ++ [⟨.delete hash password, supply, .ok c⟩]) (remove hash l) := by
  intro k hk
  rw [live_delete] at hk
  obtain ⟨hlive, hne⟩ := List.mem_filter.mp hk
  obtain ⟨lock, hlock, hmem⟩ := h k hlive
  have hother : decide (k.comment.hash ≠ hash) = true :=
    decide_eq_true (Ne.symm (of_decide_eq_true hne))
  exact ⟨lock, hlock, List.mem_filter.mpr ⟨hmem, hother⟩⟩

end OneStep

/-- No operation touches the lock of another comment, and none gives a
comment a new one. -/
theorem LocksKept.step {defaultAuthor : String} (op : Operation) {log : List Event}
    {t : Site Ledger} (h : LocksKept log t.store) :
    LocksKept (log ++ [⟨op, t.supply, (op.onLedger defaultAuthor t).1⟩])
      (op.onLedger defaultAuthor t).2.store := by
  cases op with
  | create salt post message author password parent =>
    rw [Operation.onLedger]
    obtain ⟨fault, houtcome, hstore⟩ | ⟨c, -, houtcome, hstore⟩ :=
      create_cases ⟨defaultAuthor, salt⟩ post message author password parent t
    · rw [houtcome, hstore]
      exact h.fault _ _ fault
    · rw [houtcome, hstore]
      cases hlock : lockFor salt password with
      | error fault => exact (h.fault _ _ fault).more ⟨c, none⟩
      | ok lock => exact h.created hlock
  | update hash password message =>
    rw [Operation.onLedger]
    obtain ⟨fault, houtcome, hstore⟩ | ⟨c, -, houtcome, hstore⟩ :=
      update_cases hash password message t
    · rw [houtcome, hstore]
      exact h.fault _ _ fault
    · rw [houtcome, hstore]
      exact h.edited rfl
  | delete hash password =>
    rw [Operation.onLedger]
    obtain ⟨fault, houtcome, hstore⟩ | ⟨c, -, houtcome, hstore⟩ := delete_cases hash password t
    · rw [houtcome, hstore]
      exact h.fault _ _ fault
    · rw [houtcome, hstore]
      exact h.removed
  | find hash => exact h.unchanged rfl (fun _ => rfl) (fun _ => rfl)
  | list post => exact h.unchanged rfl (fun _ => rfl) (fun _ => rfl)
  | threads post => exact h.unchanged rfl (fun _ => rfl) (fun _ => rfl)

/-! ## Passwords after a run -/

/-- A stored hash decides over a comment: it is what is kept under the
comment's key, whoever comes with a password that it accepts may remove and
edit the comment, and whoever comes with another one, or with a text that cannot
be encoded, is turned away. An edit also needs a time that the calendar has. -/
structure Decides (site : Site Memory) (c : Comment) (stored : String) : Prop where
  kept : site.store.valueAt? (passwordKey c.hash) = some (.text stored)
  delete_ok : ∀ password : String, Accepts stored password →
    ((delete c.hash password).outcome site).1 = .ok c
  update_ok : ∀ (password : String) message, Accepts stored password →
    ((update c.hash password message).outcome site).1 =
      if inRange site.supply.nextTime.1 then .ok (edited message (.utc site.supply.nextTime.1) c)
      else .error .clockOutOfRange
  delete_refused : ∀ password : String, ¬Accepts stored password →
    ((delete c.hash password).outcome site).1 = .error (.wrongPassword c.hash)
  update_refused : ∀ (password : String) message, ¬Accepts stored password →
    ((update c.hash password message).outcome site).1 = .error (.wrongPassword c.hash)
  delete_torn : ∀ password : RawText, password.isPlain = false →
    ((delete c.hash password).outcome site).1 = .error .notEncodable
  update_torn : ∀ (password : RawText) message, password.isPlain = false →
    ((update c.hash password message).outcome site).1 = .error .notEncodable

theorem decides_of_posting? {site : Site Memory} {l : Ledger} (h : Keeps site.store l) {c : Comment}
    {stored : String} (hposting : posting? c.hash l = some ⟨c, some stored⟩) :
    Decides site c stored := by
  have hat : KeepsAt site ⟨l, site.supply⟩ := ⟨h, rfl⟩
  have hyes {password : String} (haccepts : Accepts stored password) :
      Ledger.authorize c.hash password l = .ok c := by
    rw [Ledger.authorize, hposting]
    exact if_pos ((opens_iff stored password).mpr haccepts)
  have hno {password : RawText} (hshut : opens password stored = false) :
      Ledger.authorize c.hash password l = .error (refusal c.hash password) := by
    rw [Ledger.authorize, hposting]
    exact if_neg (Bool.eq_false_iff.mp hshut)
  have hdelete {password : RawText} {fault : Fault}
      (hrefused : Ledger.authorize c.hash password l = .error fault) :
      ((delete c.hash password).outcome site).1 = .error fault := by
    rw [(delete_refines c.hash password site _ hat).1, Ledger.delete, hrefused]
  have hupdate {password : RawText} (message : RawText) {fault : Fault}
      (hrefused : Ledger.authorize c.hash password l = .error fault) :
      ((update c.hash password message).outcome site).1 = .error fault := by
    rw [(update_refines c.hash password message site _ hat).1, Ledger.update, hrefused]
  have hwrong {password : String} (haccepts : ¬Accepts stored password) :
      Ledger.authorize c.hash password l = .error (.wrongPassword c.hash) :=
    hno (Bool.eq_false_iff.mpr (mt (opens_iff stored password).mp haccepts))
  have htorn {password : RawText} (hplain : password.isPlain = false) :
      Ledger.authorize c.hash password l = .error .notEncodable := by
    rw [hno (opens_of_not_isPlain hplain stored), refusal, hplain]
    rfl
  refine ⟨?_, ?_, ?_, fun _ haccepts => hdelete (hwrong haccepts),
    fun _ message haccepts => hupdate message (hwrong haccepts),
    fun _ hplain => hdelete (htorn hplain), fun _ message hplain => hupdate message (htorn hplain)⟩
  · have hkept : site.store.valueAt? (passwordKey c.hash) =
        ((posting? c.hash l).bind Posting.lock).map fun stored : String => .text stored :=
      h.password c.hash
    rw [hkept, hposting]
    rfl
  · intro password haccepts
    rw [(delete_refines c.hash password site _ hat).1, Ledger.delete, hyes haccepts]
  · intro password message haccepts
    rw [(update_refines c.hash password message site _ hat).1, Ledger.update, hyes haccepts]
    simp only
    split <;> rfl

theorem decides_of_live {defaultAuthor : String} {supply : Supply} {ops : List Operation}
    {log : List Event} {site : Site Memory}
    (hrun : run defaultAuthor ops ⟨Memory.empty, supply⟩ = (log, site)) {c : Creation}
    (hc : c ∈ live log) {password : String} (hgiven : given c.password = some ↑password) :
    ∃ stored, Password.hash? c.salt password = some stored ∧ Decides site c.comment stored := by
  have hnil : LocksKept [] [] := fun k hk => by simp [live] at hk
  obtain ⟨l, hkeeps, hlocked⟩ :=
    ledger_of_run hrun LocksKept (fun op _ log t h => h.step op) hnil
  obtain ⟨lock, hlock, hmem⟩ := hlocked c hc
  rw [lockFor, hgiven] at hlock
  cases hstored : Password.hash? c.salt password with
  | none => simp [hstored] at hlock
  | some stored =>
    simp only [hstored] at hlock
    cases hlock
    exact ⟨stored, rfl, decides_of_posting? hkeeps (posting?_of_mem hkeeps.distinct hmem)⟩

/-- After any operations, a comment that is there and was created with a
password is decided over by the hash of that password under the salt of its
creation, and it stays so through any later operations that do not remove it.
That hash accepts the password itself and every other one with the same first
72 bytes. -/
theorem decides_of_run (defaultAuthor : String) (supply : Supply) (ops : List Operation) :
    ∀ log site, run defaultAuthor ops ⟨Memory.empty, supply⟩ = (log, site) →
      ∀ c ∈ live log, ∀ password : String, c.password = some ↑password → password ≠ "" →
        ∃ stored, Password.hash? c.salt password = some stored ∧
          (∀ later log' site', run defaultAuthor later site = (log', site') →
            (∀ e ∈ log', e.removes c.comment.hash = false) →
              Decides site' (c.after log').comment stored) ∧
          ∀ other : String, (Text.utf8 other).take 72 = (Text.utf8 password).take 72 →
            Accepts stored other := by
  intro log site hrun c hc password hpassword hne
  have hgiven : given c.password = some ↑password :=
    given_eq_some_iff.mpr ⟨hpassword, by simpa using hne⟩
  obtain ⟨stored, hstored, -⟩ := decides_of_live hrun hc hgiven
  refine ⟨stored, hstored, fun later log' site' hlater hkept => ?_,
    fun other hbytes => accepts_of_take_eq hstored hne hbytes⟩
  have hboth : run defaultAuthor (ops ++ later) ⟨Memory.empty, supply⟩ =
      (log ++ log', site') := by
    simp only [run_append, hrun, hlater]
  have hgiven' : given (c.after log').password = some ↑password := by
    rw [password_after, hgiven]
  obtain ⟨stored', hstored', hdecides⟩ :=
    decides_of_live hboth (after_mem_live hc hkept) hgiven'
  rw [salt_after, hstored] at hstored'
  cases hstored'
  exact hdecides

/-- A comment with an answer still goes by the password of its creation. -/
theorem decides_of_run_answered :
    let salt := "$2b$04$abcdefghijklmnopqrstuu"
    let ops : List Operation :=
      [.create salt "intro" "Hello" none (some "pässword") none,
        .create salt "intro" "Hi" none none (some "0a1b2c3d")]
    let supply : Supply := ⟨fun n => if n = 0 then "0a1b2c3d" else "4e5f6071", fun _ => 0, 0, 0⟩
    let c : Creation :=
      ⟨⟨"0a1b2c3d", "intro", "Anonymous", "Hello", none, .utc 0, none⟩, salt, some "pässword"⟩
    let site := (run "Anonymous" ops ⟨Memory.empty, supply⟩).2
    c ∈ live (run "Anonymous" ops ⟨Memory.empty, supply⟩).1 ∧
      ∃ stored, Password.hash? salt "pässword" = some stored ∧
        Decides site c.comment stored ∧ Accepts stored "pässword" := by
  intro salt ops supply c site
  have hlive : c ∈ live (run "Anonymous" ops ⟨Memory.empty, supply⟩).1 := by decide +kernel
  obtain ⟨stored, hstored, hdecides, haccepts⟩ :=
    decides_of_run "Anonymous" supply ops _ _ (Prod.eta _).symm c hlive "pässword" rfl (by decide)
  have hnow := hdecides [] [] site rfl fun e he => nomatch he
  exact ⟨hlive, stored, hstored, hnow, haccepts "pässword" rfl⟩

end CommentThreads.Store
