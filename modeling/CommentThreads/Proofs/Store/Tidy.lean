/-
CommentThreads.Proofs.Store.Tidy — what is stored under one key, told from the
calls that write there.

* `AgreeAt` — two stores show the same at a key.
* `Tidy` — a store that holds lists as indexes and nowhere else. The calls of the
  operations keep it so (`Tidy.perform`), whoever makes them and in whatever order.
* `agreeAt_filter` — of any calls on such a store, those that write at a key decide
  what is under it.
-/
import CommentThreads.Proofs.Store.Calls

namespace CommentThreads.Store

/-! ## What is under one key -/

section AgreeAt

variable {σ : Type} [KeyValue σ] [Viewed σ]

/-- Two stores show the same at a key. -/
structure AgreeAt (key : RawText) (s t : σ) : Prop where
  value : Viewed.valueAt? s key = Viewed.valueAt? t key
  list : Viewed.listAt s key = Viewed.listAt t key

theorem AgreeAt.refl (key : RawText) (s : σ) : AgreeAt key s s := ⟨rfl, rfl⟩

theorem AgreeAt.symm {key : RawText} {s t : σ} (h : AgreeAt key s t) : AgreeAt key t s :=
  ⟨h.value.symm, h.list.symm⟩

theorem AgreeAt.trans {key : RawText} {s t u : σ} (hst : AgreeAt key s t) (htu : AgreeAt key t u) :
    AgreeAt key s u :=
  ⟨hst.value.trans htu.value, hst.list.trans htu.list⟩

/-- A call that changes what is under a key. -/
def Call.writesAt (key : RawText) : Call → Bool
  | .set other _ | .delete other | .prepend other _ | .remove other _ => other = key
  | .get _ | .items _ => false

/-- A call that changes an index. -/
def Call.changesIndex : Call → Bool
  | .prepend _ _ | .remove _ _ => true
  | _ => false

theorem Call.key_of_writesAt {key : RawText} {c : Call} (h : c.writesAt key = true) :
    c.key = key := by
  cases c with
  | get _ | items _ => cases h
  | set _ _ | delete _ | prepend _ _ | remove _ _ => exact of_decide_eq_true h

theorem Call.not_isRead_of_writesAt {key : RawText} {c : Call} (h : c.writesAt key = true) :
    ¬c.IsRead := by
  cases c with
  | get _ | items _ => cases h
  | set _ _ | delete _ | prepend _ _ | remove _ _ => exact id

theorem Call.changesIndex_of_isRead {c : Call} (h : c.IsRead) : c.changesIndex = false := by
  cases c with
  | get _ | items _ => rfl
  | set _ _ | delete _ | prepend _ _ | remove _ _ => exact absurd h id

theorem agreeAt_perform_of_not {key : RawText} {c : Call} (hc : c.writesAt key = false) (s : σ) :
    AgreeAt key (KeyValue.perform c s).2 s := by
  obtain htaken | hsame := taken_or_same c s
  case inr =>
    rw [hsame]
    exact AgreeAt.refl key s
  cases c with
  | get other => rw [Viewed.perform_get]; exact AgreeAt.refl key s
  | items other => rw [Viewed.perform_items]; exact AgreeAt.refl key s
  | set other value =>
    have hne : key ≠ other := fun heq => of_decide_eq_false hc heq.symm
    rw [Call.key] at htaken
    exact ⟨by simp [htaken, hne], Viewed.listAt_set _ _ _ _ (.inl hne)⟩
  | delete other =>
    have hne : key ≠ other := fun heq => of_decide_eq_false hc heq.symm
    exact ⟨by simp [hne], by simp [hne]⟩
  | prepend other item =>
    have hne : key ≠ other := fun heq => of_decide_eq_false hc heq.symm
    rw [Call.key] at htaken
    exact ⟨Viewed.valueAt?_prepend _ _ _ _ (.inl hne), by simp [htaken, hne]⟩
  | remove other item =>
    have hne : key ≠ other := fun heq => of_decide_eq_false hc heq.symm
    exact ⟨by simp, by simp [hne]⟩

theorem agreeAt_perform {key : RawText} {s t : σ} (h : AgreeAt key s t) {c : Call}
    (hfits : c.Fits s) : AgreeAt key (KeyValue.perform c s).2 (KeyValue.perform c t).2 := by
  cases htaken : KeyValue.takes c.key s with
  | false =>
    have htaken' : KeyValue.takes c.key t = false := by rw [Viewed.takes_same c.key t s, htaken]
    rw [Viewed.perform_refused c s htaken, Viewed.perform_refused c t htaken']
    exact h
  | true => ?_
  have htaken' : KeyValue.takes c.key t = true := by rw [Viewed.takes_same c.key t s, htaken]
  cases hc : c.writesAt key with
  | false => exact (agreeAt_perform_of_not hc s).trans (h.trans (agreeAt_perform_of_not hc t).symm)
  | true =>
    obtain ⟨hvalue, hlist⟩ := h
    cases c with
    | get other => cases hc
    | items other => cases hc
    | set other value =>
      cases of_decide_eq_true hc
      rw [Call.key] at htaken htaken'
      have hempty : Viewed.listAt s key = [] := hfits
      have hempty' : Viewed.listAt t key = [] := by rw [← hlist, hempty]
      exact ⟨by simp [htaken, htaken'], by simp [hempty, hempty']⟩
    | delete other =>
      cases of_decide_eq_true hc
      exact ⟨by simp, by simp⟩
    | prepend other item =>
      cases of_decide_eq_true hc
      rw [Call.key] at htaken htaken'
      have hnone : Viewed.valueAt? s key = none := hfits
      have hnone' : Viewed.valueAt? t key = none := by rw [← hvalue, hnone]
      exact ⟨by simp [hnone, hnone'], by simp [htaken, htaken', hlist]⟩
    | remove other item =>
      cases of_decide_eq_true hc
      exact ⟨by simp [hvalue], by simp [hlist]⟩

/-- Only what is read has an answer that depends on the store. -/
theorem answer_eq {c : Call} {s t : σ} (h : c.IsRead → AgreeAt c.key s t) :
    (KeyValue.perform c s).1 = (KeyValue.perform c t).1 := by
  cases c with
  | get key => rw [Viewed.perform_get, Viewed.perform_get]; exact (h trivial).value
  | items key => rw [Viewed.perform_items, Viewed.perform_items]; exact (h trivial).list
  | set key value => rfl
  | delete key => rfl
  | prepend key item => rfl
  | remove key item => rfl

/-! ## Indexes apart from the rest -/

/-- A store that holds lists as indexes and nowhere else. -/
structure Tidy (s : σ) : Prop where
  value : ∀ post, Viewed.valueAt? s (indexKey post) = none
  list : ∀ key, Viewed.listAt s key ≠ [] → ∃ post, key = indexKey post

/-- A call that an operation makes: it reads, or writes for some comment. -/
def Call.Proper (c : Call) : Prop := c.IsRead ∨ ∃ hash, WritesFor hash c

variable {s : σ} (h : Tidy s)
include h

theorem Tidy.list_nil {key : RawText} (hkey : ∀ post, key ≠ indexKey post) :
    Viewed.listAt s key = [] := by
  refine Classical.byContradiction fun hlist => ?_
  obtain ⟨post, hpost⟩ := h.list key hlist
  exact hkey post hpost

theorem Tidy.fits {c : Call} (hc : c.Proper) : c.Fits s := by
  rcases hc with hread | ⟨hash, hwrite⟩
  · cases c with
    | get key => trivial
    | items key => trivial
    | set | delete | prepend | remove => exact absurd hread id
  · cases hwrite with
    | setRecord value => exact h.list_nil (recordKey_ne_indexKey hash)
    | setPassword value => exact h.list_nil (passwordKey_ne_indexKey hash)
    | prepend post => exact h.value post
    | remove post => trivial
    | deleteRecord => trivial
    | deletePassword => trivial

theorem Tidy.perform {c : Call} (hc : c.Proper) : Tidy (KeyValue.perform c s).2 := by
  obtain htaken | hsame := taken_or_same c s
  case inr =>
    rw [hsame]
    exact h
  rcases hc with hread | ⟨hash, hwrite⟩
  · rw [perform_read hread]
    exact h
  · have hrecord := h.list_nil (recordKey_ne_indexKey hash)
    have hpassword := h.list_nil (passwordKey_ne_indexKey hash)
    cases hwrite with
    | setRecord value =>
      rw [Call.key] at htaken
      exact ⟨by simpa [htaken] using h.value, by simpa [hrecord] using h.list⟩
    | setPassword value =>
      rw [Call.key] at htaken
      exact ⟨by simpa [htaken] using h.value, by simpa [hpassword] using h.list⟩
    | prepend post =>
      rw [Call.key] at htaken
      refine ⟨by simpa [h.value post] using h.value, fun key hlist => ?_⟩
      by_cases hkey : key = indexKey post
      · exact ⟨post, hkey⟩
      · exact h.list key (by simpa [htaken, hkey] using hlist)
    | remove post =>
      refine ⟨by simpa using h.value, fun key hlist => ?_⟩
      by_cases hkey : key = indexKey post
      · exact ⟨post, hkey⟩
      · exact h.list key (by simpa [hkey] using hlist)
    | deleteRecord =>
      refine ⟨by simpa using h.value, fun key hlist => h.list key fun hnil => hlist ?_⟩
      simp [hnil]
    | deletePassword =>
      refine ⟨by simpa using h.value, fun key hlist => h.list key fun hnil => hlist ?_⟩
      simp [hnil]

omit h in
/-- What is under a key comes from the calls that write there. -/
theorem agreeAt_filter {calls : List Call} (hcalls : ∀ c ∈ calls, c.Proper) (key : RawText) {t : σ}
    (hs : Tidy s) (h : AgreeAt key s t) :
    AgreeAt key (storeAfter calls s) (storeAfter (calls.filter (·.writesAt key)) t) := by
  induction calls generalizing s t with
  | nil => exact h
  | cons c rest ih =>
    have hc := hcalls c List.mem_cons_self
    have hrest := fun d hd => hcalls d (List.mem_cons_of_mem c hd)
    rw [List.filter_cons]
    cases hwrites : c.writesAt key with
    | true => exact ih hrest (hs.perform hc) (agreeAt_perform h (hs.fits hc))
    | false => exact ih hrest (hs.perform hc) ((agreeAt_perform_of_not hwrites s).trans h)

end AgreeAt

end CommentThreads.Store
