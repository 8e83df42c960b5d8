/-
CommentThreads.Proofs.Server.Verdict — how two runs of the service are compared, and the
check that a request comes to.

* `Matches` is carried through the programs of the service: two requests that differ in
  their bodies alone are answered alike, at sites that are related, if the resource that
  they are for answers them alike (`matches_respond_body`), and that does if the bodies
  are read alike (`ReadAlike`).
* `presented?` — the comment and the password that a request brings to a check, if it
  gets that far; `requestVerdict` is the outcome of that check.
-/
import CommentThreads.Proofs.Server.Requests
import CommentThreads.Proofs.Store.Verdict

namespace CommentThreads.Server

open CommentThreads.Http CommentThreads.Store

variable {σ α β : Type} [KeyValue σ]

/-! ## Programs of the service -/

section Building

variable {R : Site σ → Site σ → Prop} {site site' : Site σ}

theorem matches_map {f : α → β} {p p' : Program α} (h : Matches R (p.run site) (p'.run site')) :
    Matches R ((f <$> p).run site) ((f <$> p').run site') := by
  rw [run_map, run_map]
  exact ⟨congrArg f h.result, h.after⟩

theorem matches_answer {a a' : Action α} {good : α → Response} {bad : Fault → Response}
    (h : Matches R (a.outcome site) (a'.outcome site')) :
    Matches R ((answer a good bad).run site) ((answer a' good bad).run site') := by
  rw [run_answer (Prod.eta (a.outcome site)).symm, run_answer (Prod.eta (a'.outcome site')).symm]
  exact ⟨congrArg (answerOf good bad) h.result, h.after⟩

/-- A program of the service that answers without the store. -/
theorem matches_return (h : R site site') (x : α) :
    Matches R ((pure x : Program α).run site) ((pure x : Program α).run site') := ⟨rfl, h⟩

theorem matches_orAnswer {input : Except Response α} {next next' : α → Program Outcome}
    (h : R site site')
    (hnext : ∀ a, input = .ok a → Matches R ((next a).run site) ((next' a).run site')) :
    Matches R ((orAnswer input next).run site) ((orAnswer input next').run site') := by
  unfold orAnswer
  split
  · exact hnext _ rfl
  · exact matches_return h _

theorem matches_withStore {s : Service} {next next' : Program Outcome} (h : R site site')
    (hnext : s.hasStore = true → Matches R (next.run site) (next'.run site')) :
    Matches R ((withStore s next).run site) ((withStore s next').run site') := by
  unfold withStore
  split
  · next hstore => exact hnext hstore
  · exact matches_return h _

/-- What is done with a message that is not too large. -/
theorem matches_withinLimit {settings : Settings} {message : RawText}
    {next next' : Program Response} (h : R site site')
    (hnext : ∀ m : String, message = m → fits settings m = true →
      Matches R (next.run site) (next'.run site')) :
    Matches R ((withinLimit settings message next).run site)
      ((withinLimit settings message next').run site') := by
  cases message with
  | torn m half rest => exact matches_return h _
  | plain m =>
    rw [withinLimit_plain, withinLimit_plain]
    split
    · next hfits => exact matches_map (hnext m rfl hfits)
    · exact matches_return h _

variable {s : Service}

/-- A new comment is answered as it is created. -/
theorem matches_postComment (h : R site site') (c : NewComment) {password : Option RawText}
    (hcreate : Matches R
      ((create s.config c.post c.message c.author c.password c.parent).outcome site)
      ((create s.config c.post c.message c.author password c.parent).outcome site')) :
    Matches R ((postComment s c).run site)
      ((postComment s { c with password := password }).run site') :=
  matches_withinLimit h fun _ _ _ => matches_answer hcreate

/-- An edit is answered as it is made, if its message is not too large. -/
theorem matches_putComment (h : R site site') (e : Edit) {password : RawText}
    (hupdate : ∀ m : String, e.message = m → fits s.settings m = true →
      Matches R ((update e.hash e.password e.message).outcome site)
        ((update e.hash password e.message).outcome site')) :
    Matches R ((putComment s e).run site)
      ((putComment s { e with password := password }).run site') :=
  matches_withinLimit h fun m hm hfits => matches_answer (hupdate m hm hfits)

theorem matches_deleteComment (removal : Removal) {password : RawText}
    (hdelete : Matches R ((delete removal.hash removal.password).outcome site)
      ((delete removal.hash password).outcome site')) :
    Matches R ((deleteComment removal).run site)
      ((deleteComment { removal with password := password }).run site') :=
  matches_map (matches_answer hdelete)

end Building

/-! ## Requests with bodies -/

/-- Two bodies of which a reader makes the same, but for what is related: both are no
values, or both are refused, or both are read. -/
inductive ReadAlike (read : FieldReader α) (Q : α → α → Prop) :
    Except BodyFault Json → Except BodyFault Json → Prop
  | unreadable (fault : BodyFault) : ReadAlike read Q (.error fault) (.error fault)
  | refused {v v' : Json} {response : Response} (h : ofBody read v = .error response)
      (h' : ofBody read v' = .error response) : ReadAlike read Q (.ok v) (.ok v')
  | read {v v' : Json} {a a' : α} (h : ofBody read v = .ok a) (h' : ofBody read v' = .ok a')
      (alike : Q a a') : ReadAlike read Q (.ok v) (.ok v')

theorem ReadAlike.imp {read : FieldReader α} {Q Q' : α → α → Prop}
    {body body' : Except BodyFault Json} (h : ReadAlike read Q body body')
    (himp : ∀ a a', Q a a' → Q' a a') : ReadAlike read Q' body body' := by
  cases h with
  | unreadable fault => exact .unreadable fault
  | refused h h' => exact .refused h h'
  | read h h' halike => exact .read h h' (himp _ _ halike)

theorem readAlike_self (read : FieldReader α) (body : Except BodyFault Json) :
    ReadAlike read Eq body body := by
  cases body with
  | error fault => exact .unreadable fault
  | ok v =>
    cases hv : ofBody read v with
    | error response => exact .refused hv hv
    | ok a => exact .read hv hv rfl

section Bodies

variable {R : Site σ → Site σ → Prop} {site site' : Site σ} {s : Service} {r r' : Request}

theorem matches_withBody {read : FieldReader α} {Q : α → α → Prop}
    {next next' : α → Program Outcome} (h : R site site')
    (hread : ReadAlike read Q (bodyValue r) (bodyValue r'))
    (hnext : s.hasStore = true → ∀ a a', Brings r read a → Brings r' read a' → Q a a' →
      Matches R ((next a).run site) ((next' a').run site')) :
    Matches R ((withBody s r read next).run site) ((withBody s r' read next').run site') := by
  unfold withBody
  unfold Brings at hnext
  revert hread hnext
  generalize bodyValue r = body
  generalize bodyValue r' = body'
  intro hread hnext
  cases hread with
  | unreadable fault =>
    cases fault with
    | answered response => exact matches_return h _
    | crash =>
      simp only
      split
      · exact matches_return h _
      · exact matches_return h _
  | refused hv hv' =>
    refine matches_withStore h fun _ => ?_
    rw [hv, hv']
    exact matches_return h _
  | read hv hv' halike =>
    refine matches_withStore h fun hstore => ?_
    rw [hv, hv']
    exact hnext hstore _ _ ⟨_, rfl, hv⟩ ⟨_, rfl, hv'⟩ halike

/-- What else a request says decides where it goes, and nothing about its body does. -/
theorem matches_respond_body {body : List UInt8} (h : R site site')
    (hresource : judgeHost s.settings r = .served → ∀ resource,
      Route.ofPath (decodedPath r.target) = .found resource →
        Matches R ((atResource s r resource).run site)
          ((atResource s { r with body := body } resource).run site')) :
    Matches R ((respond s r).run site) ((respond s { r with body := body }).run site') := by
  have hhost :
      Matches R ((atHost s r).run site) ((atHost s { r with body := body }).run site') := by
    have hjudged : judgeHost s.settings { r with body := body } = judgeHost s.settings r := rfl
    unfold atHost
    rw [hjudged]
    split
    · next hserved =>
      unfold atRoute
      dsimp only
      split
      · next resource hroute => exact hresource hserved resource hroute
      · exact matches_return h _
      · exact matches_return h _
    · exact matches_return h _
    · exact matches_return h _
  have hpreflight : isPreflight { r with body := body } = isPreflight r := rfl
  unfold respond
  rw [hpreflight]
  split
  · exact matches_return h _
  · obtain ⟨hresult, hafter⟩ := hhost
    rw [Program.run_bind, Program.run_bind, hresult]
    exact matches_return hafter _

end Bodies

/-! ## What a request brings to a check -/

/-- The comment and the password in the body of an edit or a removal that is not
refused beforehand. -/
def bodyPresents? (s : Service) (r : Request) : Option (RawText × RawText) :=
  match bodyValue r with
  | .error _ => none
  | .ok body =>
    match r.method with
    | "PUT" =>
      match ofBody Edit.reader body with
      | .ok e =>
        match e.message.string? with
        | some message => if fits s.settings message then some (e.hash, e.password) else none
        | none => none
      | .error _ => none
    | "DELETE" =>
      match ofBody Removal.reader body with
      | .ok removal => some (removal.hash, removal.password)
      | .error _ => none
    | _ => none

/-- The comment and the password that a request brings to a check, if it gets that far. -/
def presented? (s : Service) (r : Request) : Option (RawText × RawText) :=
  match judgeHost s.settings r, Route.ofPath (decodedPath r.target) with
  | .served, .found .comments => if s.hasStore then bodyPresents? s r else none
  | _, _ => none

/-- The outcome of the check that a request comes to, if it comes to one. -/
def requestVerdict (s : Service) (r : Request) (site : Site σ) : Option Bool :=
  (presented? s r).bind fun (hash, password) => verdict hash password site

theorem bodyPresents?_eq_none {s : Service} {r : Request} (hput : r.method ≠ "PUT")
    (hdelete : r.method ≠ "DELETE") : bodyPresents? s r = none := by
  unfold bodyPresents?
  split
  · rfl
  · split
    · next hmethod => exact absurd hmethod hput
    · next hmethod => exact absurd hmethod hdelete
    · rfl

/-- A request that edits and removes nothing comes to no check. -/
theorem requestVerdict_eq_none {s : Service} {r : Request} (hput : r.method ≠ "PUT")
    (hdelete : r.method ≠ "DELETE") (site : Site σ) : requestVerdict s r site = none := by
  have hnone : presented? s r = none := by
    unfold presented?
    split
    · rw [bodyPresents?_eq_none hput hdelete, ite_self]
    · rfl
  rw [requestVerdict, hnone, Option.bind_none]

section Presented

variable {s : Service} {r : Request} (hserved : judgeHost s.settings r = .served)
  (hroute : Route.ofPath (decodedPath r.target) = .found .comments) (hstore : s.hasStore = true)

include hserved hroute hstore

/-- An edit that is not too large brings its password to the check. -/
theorem requestVerdict_edit (hmethod : r.method = "PUT") {e : Edit} (he : Brings r Edit.reader e)
    {message : String} (hmessage : e.message = message) (hfits : fits s.settings message = true)
    (site : Site σ) : requestVerdict s r site = verdict e.hash e.password site := by
  obtain ⟨v, hv, he⟩ := he
  simp only [requestVerdict, presented?, hserved, hroute, hstore, if_true, bodyPresents?, hv,
    hmethod, he, hmessage, RawText.string?_plain, hfits, Option.bind_some]

/-- So does a removal. -/
theorem requestVerdict_removal (hmethod : r.method = "DELETE") {removal : Removal}
    (hremoval : Brings r Removal.reader removal) (site : Site σ) :
    requestVerdict s r site = verdict removal.hash removal.password site := by
  obtain ⟨v, hv, hremoval⟩ := hremoval
  simp only [requestVerdict, presented?, hserved, hroute, hstore, if_true, bodyPresents?, hv,
    hmethod, hremoval, Option.bind_some]

end Presented

/-! ## Two passwords -/

section TwoPasswords

variable {s : Service} {r : Request} {body : List UInt8} {password : RawText} {site : Site σ}

/-- Requests whose bodies are refused alike are answered the same, and leave the same. -/
theorem respond_refused_congr {read : FieldReader α} {next : α → Program Outcome}
    (hmethod : r.method ≠ "GET")
    (hcomments : ∀ body, atResource s { r with body := body } .comments =
      withBody s { r with body := body } read next)
    (hread : ReadAlike read (fun _ _ => False) (bodyValue r) (bodyValue { r with body := body })) :
    (respond s r).run site = (respond s { r with body := body }).run site := by
  refine eq_of_matches (matches_respond_body rfl fun _ resource _ => ?_)
  cases resource with
  | comment hash =>
    simp only [atResource]
    exact matches_return rfl _
  | comments =>
    rw [hcomments body, show atResource s r .comments = _ from hcomments r.body]
    exact matches_withBody rfl hread fun _ _ _ _ _ halike => halike.elim

/-- The service reads what it finds in both bodies alike. -/
theorem readAlike_of_brings {read : FieldReader α} {r' : Request} {a a' : α} (h : Brings r read a)
    (h' : Brings r' read a') :
    ReadAlike read (fun b b' => b = a ∧ b' = a') (bodyValue r) (bodyValue r') := by
  obtain ⟨v, hv, hread⟩ := h
  obtain ⟨v', hv', hread'⟩ := h'
  rw [hv, hv']
  exact .read hread hread' ⟨rfl, rfl⟩

/-- What is answered to a new comment does not tell its password. -/
theorem result_respond_newComment (password : RawText) (hmethod : r.method = "POST")
    (hread : ReadAlike NewComment.reader
      (fun c c' => c' = { c with password := some password } ∧
        GivenAlike c.password (some password))
      (bodyValue r) (bodyValue { r with body := body })) :
    ((respond s r).run site).1 = ((respond s { r with body := body }).run site).1 := by
  refine Matches.result (R := fun _ _ => True) (matches_respond_body trivial fun _ resource _ => ?_)
  cases resource with
  | comment hash =>
    simp only [atResource, hmethod]
    exact matches_return trivial _
  | comments =>
    simp only [atResource, hmethod]
    refine matches_withBody trivial hread ?_
    rintro - c _ - - ⟨rfl, hgiven⟩
    exact matches_postComment trivial c
      ⟨result_create s.config c.post c.message c.author c.parent hgiven site, trivial⟩

/-- Two edits that differ in the password are answered the same, and leave the same, if
the check has the same outcome. -/
theorem respond_edit_congr (hmethod : r.method = "PUT") {e : Edit} (hne : e.password ≠ "")
    (hne' : password ≠ "") (hplain : e.password.isPlain = password.isPlain)
    (he : Brings r Edit.reader e)
    (he' : Brings { r with body := body } Edit.reader { e with password := password })
    (hverdict : requestVerdict s r site = requestVerdict s { r with body := body } site) :
    (respond s r).run site = (respond s { r with body := body }).run site := by
  refine eq_of_matches (matches_respond_body rfl fun hserved resource hroute => ?_)
  cases resource with
  | comment hash =>
    simp only [atResource, hmethod]
    exact matches_return rfl _
  | comments =>
    simp only [atResource, hmethod]
    refine matches_withBody rfl (readAlike_of_brings he he') ?_
    rintro hstore e _ - - ⟨rfl, rfl⟩
    refine matches_putComment rfl e fun message hmessage hfits => ?_
    rw [requestVerdict_edit hserved hroute hstore hmethod he hmessage hfits,
      requestVerdict_edit (r := { r with body := body }) hserved hroute hstore hmethod he' hmessage
        hfits] at hverdict
    rw [update_congr hne hne' hplain hverdict]
    exact ⟨rfl, rfl⟩

/-- So are two removals. -/
theorem respond_removal_congr (hmethod : r.method = "DELETE") {removal : Removal}
    (hne : removal.password ≠ "") (hne' : password ≠ "")
    (hplain : removal.password.isPlain = password.isPlain) (h : Brings r Removal.reader removal)
    (h' : Brings { r with body := body } Removal.reader { removal with password := password })
    (hverdict : requestVerdict s r site = requestVerdict s { r with body := body } site) :
    (respond s r).run site = (respond s { r with body := body }).run site := by
  refine eq_of_matches (matches_respond_body rfl fun hserved resource hroute => ?_)
  cases resource with
  | comment hash =>
    simp only [atResource, hmethod]
    exact matches_return rfl _
  | comments =>
    simp only [atResource, hmethod]
    refine matches_withBody rfl (readAlike_of_brings h h') ?_
    rintro hstore removal _ - - ⟨rfl, rfl⟩
    refine matches_deleteComment removal ?_
    rw [requestVerdict_removal hserved hroute hstore hmethod h,
      requestVerdict_removal (r := { r with body := body }) hserved hroute hstore hmethod h']
      at hverdict
    rw [delete_congr hne hne' hplain hverdict]
    exact ⟨rfl, rfl⟩

end TwoPasswords

end CommentThreads.Server
