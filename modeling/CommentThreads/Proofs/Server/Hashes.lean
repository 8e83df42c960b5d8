/-
CommentThreads.Proofs.Server.Hashes — what the answers of the service tell about the
hashes of passwords that it keeps: the outcomes of the checks, and nothing else.

* `matches_respond` — over stores that are the same but for hashes a request has the
  same answer, and the stores stay so, if the check that it comes to has the same
  outcome.
* `blind_to_hashes` — so a request that edits and removes nothing has the same answer in
  any case, and a sequence of requests has the same answers if its checks have the same
  outcomes.
-/
import CommentThreads.Proofs.Server.Verdict
import CommentThreads.Proofs.Store.Hashes

namespace CommentThreads.Server

open CommentThreads.Http CommentThreads.Store

/-! ## Answers -/

section Answers

variable {s : Service} {r : Request} {site site' : Site Memory}

theorem matches_atResource (h : Alike site site') (hserved : judgeHost s.settings r = .served)
    {resource : Resource} (hroute : Route.ofPath (decodedPath r.target) = .found resource)
    (hverdict : requestVerdict s r site = requestVerdict s r site') :
    Matches Alike ((atResource s r resource).run site) ((atResource s r resource).run site') := by
  cases resource with
  | comments =>
    rw [atResource]
    split
    · exact matches_withStore h fun _ => matches_orAnswer h fun post _ =>
        matches_map (matches_answer (discreet_threads post site site' h))
    · refine matches_withBody h (readAlike_self _ _) ?_
      rintro - c _ - - rfl
      exact matches_postComment h c
        (matches_create s.config c.post c.message c.author c.parent rfl h)
    · next hmethod =>
      refine matches_withBody h (readAlike_self _ _) ?_
      rintro hstore e _ he - rfl
      refine matches_putComment h e fun message hmessage hfits => matches_update e.message h rfl ?_
      rwa [requestVerdict_edit hserved hroute hstore hmethod he hmessage hfits,
        requestVerdict_edit hserved hroute hstore hmethod he hmessage hfits] at hverdict
    · next hmethod =>
      refine matches_withBody h (readAlike_self _ _) ?_
      rintro hstore removal _ hremoval - rfl
      refine matches_deleteComment removal (matches_delete h rfl ?_)
      rwa [requestVerdict_removal hserved hroute hstore hmethod hremoval,
        requestVerdict_removal hserved hroute hstore hmethod hremoval] at hverdict
    · exact matches_return h _
  | comment hash =>
    rw [atResource]
    split
    · exact matches_withStore h fun _ =>
        matches_map (matches_answer (discreet_find hash site site' h))
    · exact matches_return h _

/-- Two stores that are the same but for hashes answer a request alike, and stay so, if
the check that it comes to has the same outcome. -/
theorem matches_respond (h : Alike site site')
    (hverdict : requestVerdict s r site = requestVerdict s r site') :
    Matches Alike ((respond s r).run site) ((respond s r).run site') :=
  matches_respond_body h fun hserved _ hroute =>
    matches_atResource h hserved hroute hverdict

end Answers

/-! ## Sequences of requests -/

/-- The answers to some requests, one after the other, each under settings and a salt of
its own. -/
def answers : List (Service × Request) → Site Memory → List Response × Site Memory
  | [], site => ([], site)
  | (s, r) :: rest, site =>
    let (answer, after) := (respond s r).run site
    let (later, last) := answers rest after
    (answer :: later, last)

/-- The outcomes of the checks that the requests come to. -/
def verdicts : List (Service × Request) → Site Memory → List (Option Bool)
  | [], _ => []
  | (s, r) :: rest, site =>
    requestVerdict s r site :: verdicts rest ((respond s r).run site).2

theorem matches_answers {requests : List (Service × Request)} {site site' : Site Memory}
    (h : Alike site site') (hverdicts : verdicts requests site = verdicts requests site') :
    Matches Alike (answers requests site) (answers requests site') := by
  induction requests generalizing site site' with
  | nil => exact ⟨rfl, h⟩
  | cons request rest ih =>
    obtain ⟨s, r⟩ := request
    obtain ⟨hverdict, hrest⟩ := List.cons.inj hverdicts
    obtain ⟨hresult, hafter⟩ := matches_respond h hverdict
    obtain ⟨hlater, hlast⟩ := ih hafter hrest
    exact ⟨List.cons_eq_cons.mpr ⟨hresult, hlater⟩, hlast⟩

/-- Nothing that is asked tells two sites apart but the outcomes of checks. -/
structure BlindToHashes (site site' : Site Memory) : Prop where
  unchecked : ∀ s r, r.method ≠ "PUT" → r.method ≠ "DELETE" →
    Matches Alike ((respond s r).run site) ((respond s r).run site')
  checked : ∀ s r, requestVerdict s r site = requestVerdict s r site' →
    Matches Alike ((respond s r).run site) ((respond s r).run site')
  sequence : ∀ requests, verdicts requests site = verdicts requests site' →
    Matches Alike (answers requests site) (answers requests site')

/-- The hashes of passwords are told from nothing but the outcomes of checks. -/
theorem blind_to_hashes {site site' : Site Memory} (h : Alike site site') :
    BlindToHashes site site' where
  unchecked s r hput hdelete := by
    refine matches_respond h ?_
    rw [requestVerdict_eq_none hput hdelete, requestVerdict_eq_none hput hdelete]
  checked _ _ hverdict := matches_respond h hverdict
  sequence _ hverdicts := matches_answers h hverdicts

/-- A comment with a password, hashed under one salt or under another. -/
theorem blind_to_hashes_resalted :
    let supply : Supply := ⟨fun _ => "0a1b2c3d", fun _ => 0, 0, 0⟩
    let comment : Comment := ⟨"0a1b2c3d", "p", "Ann", "Hello", none, .utc 0, none⟩
    let site (stored : String) : Site Memory :=
      ⟨⟨[(recordKey "0a1b2c3d", comment.toJson), (passwordKey "0a1b2c3d", .text stored)],
        [(indexKey "p", ["0a1b2c3d"])]⟩, supply⟩
    ∃ stored stored', Password.hash? "$2b$04$abcdefghijklmnopqrstuu" "secret" = some stored ∧
      Password.hash? "$2b$04$zyxwvutsrqponmlkjihgfu" "secret" = some stored' ∧
      Alike (site stored) (site stored') ∧ BlindToHashes (site stored) (site stored') := by
  intro supply comment site
  have hhash (salt : String) (hsalt : (Password.Salt.ofText? salt).isSome = true) :
      ∃ stored, Password.hash? salt "secret" = some stored := by
    obtain ⟨parsed, hparsed⟩ := Option.isSome_iff_exists.mp hsalt
    exact ⟨_, (Password.hash?_plain salt "secret").trans
      (Option.map_eq_some_iff.mpr ⟨parsed, hparsed, rfl⟩)⟩
  obtain ⟨stored, hstored⟩ := hhash "$2b$04$abcdefghijklmnopqrstuu" (by decide +kernel)
  obtain ⟨stored', hstored'⟩ := hhash "$2b$04$zyxwvutsrqponmlkjihgfu" (by decide +kernel)
  let bare : Memory :=
    ⟨[(recordKey "0a1b2c3d", comment.toJson)], [(indexKey "p", ["0a1b2c3d"])]⟩
  have hbare : SameButHashes bare bare := by
    refine ⟨fun _ => rfl, fun _ _ => rfl, fun hash => ?_⟩
    rw [Entries.get?_cons, if_neg (recordKey_ne_passwordKey _ _)]
    exact .none
  have halike : Alike (site stored) (site stored') :=
    ⟨hbare.put_hash "0a1b2c3d" ⟨_, _, hstored⟩ ⟨_, _, hstored'⟩, rfl⟩
  exact ⟨stored, stored', hstored, hstored', halike, blind_to_hashes halike⟩

end CommentThreads.Server
