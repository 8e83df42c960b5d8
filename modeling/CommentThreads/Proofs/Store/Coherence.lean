/-
CommentThreads.Proofs.Store.Coherence — what holds of a store between any two
calls.

A ledger says too much of a store in the middle of an operation: a record may be
there that no index names, or a password without a record. `Coherent` says what
is left. Whatever an index names is there, once, as a comment of that post, and
what is stored can be read.

* `Coherent.find_eq`, `Coherent.authorize_eq`, `Coherent.list_eq` — what is read
  of such a store.
* `coherent_create`, `coherent_update`, `coherent_delete` — the three changes
  write in an order that keeps a store coherent throughout. A record comes before
  its entry in the index, and goes after it.
-/
import CommentThreads.Proofs.Store.Calls

namespace CommentThreads.Store

open Ledger Time

variable {σ : Type} [KeyValue σ] [Viewed σ]

/-- A store that holds nothing. -/
structure Blank (s : σ) : Prop where
  value : ∀ key, Viewed.valueAt? s key = none
  list : ∀ key, Viewed.listAt s key = []

/-- A store holds the record of a comment. -/
structure Holds (s : σ) (c : Comment) : Prop where
  record : Viewed.valueAt? s (recordKey c.hash) = some c.toJson
  dated : c.Dated

/-- A store whose indexes name what is there, and in which all that is there can
be read. There may be records that no index names, and passwords without a
record. -/
structure Coherent (s : σ) : Prop where
  index_nodup : ∀ post, (Viewed.listAt s (indexKey post)).Nodup
  indexed : ∀ post, ∀ hash ∈ Viewed.listAt s (indexKey post),
    ∃ c, Holds s c ∧ c.hash = hash ∧ c.post = post
  record : ∀ hash, Viewed.valueAt? s (recordKey hash) ≠ none → ∃ c, Holds s c ∧ c.hash = hash
  password : ∀ hash, ∀ value ∈ Viewed.valueAt? s (passwordKey hash),
    ∃ (salt : String) (password : RawText) (stored : String),
      value = .text stored ∧ Password.hash? salt password = some stored
  valueKeys : ∀ key, Viewed.valueAt? s key ≠ none →
    ∃ hash, key = recordKey hash ∨ key = passwordKey hash
  listKeys : ∀ key, Viewed.listAt s key ≠ [] → ∃ post, key = indexKey post

theorem Blank.coherent {s : σ} (h : Blank s) : Coherent s where
  index_nodup post := by simp [h.list]
  indexed post hash hmem := by simp [h.list] at hmem
  record hash hrecord := absurd (h.value _) hrecord
  password hash value hvalue := by simp [h.value] at hvalue
  valueKeys key hvalue := absurd (h.value key) hvalue
  listKeys key hlist := absurd (h.list key) hlist

/-- Under one hash a store holds one comment. -/
theorem Holds.unique {s : σ} {c d : Comment} (hc : Holds s c) (hd : Holds s d)
    (hhash : c.hash = d.hash) : c = d := by
  have hrecord := hc.record
  rw [hhash, hd.record] at hrecord
  have hread := Comment.reader_toJson hc.dated "" (.utc 0)
  rw [← Option.some.inj hrecord, Comment.reader_toJson hd.dated] at hread
  cases hread
  rfl

/-! ## What is read -/

section Reading

variable {s : Site σ}

/-- What is stored under a hash is found there, whatever hash its record names. -/
theorem find_of_record {hash : RawText} {c : Comment} (hdated : c.Dated)
    (hrecord : Viewed.valueAt? s.store (recordKey hash) = some c.toJson) :
    (find hash).outcome s = (.ok (some c), s) := by
  have htaken : KeyValue.takes (recordKey hash) s.store = true :=
    taken_of_valueAt? (by rw [hrecord]; exact Option.some_ne_none _)
  have hget : (ask (.get (recordKey hash))).outcome s = (.ok (some c.toJson), s) := by
    rw [outcome_ask_taken htaken, perform_get, hrecord]
  rw [find, outcome_bind_ok hget]
  simp only
  rw [outcome_bind_ok (outcome_loadRecord hdated s)]
  rfl

theorem Holds.find_eq {c : Comment} (h : Holds s.store c) :
    (find c.hash).outcome s = (.ok (some c), s) := find_of_record h.dated h.record

theorem find_none {hash : RawText} (h : Viewed.valueAt? s.store (recordKey hash) = none)
    (htaken : KeyValue.takes (recordKey hash) s.store = true) :
    (find hash).outcome s = (.ok none, s) := by
  have hget : (ask (.get (recordKey hash))).outcome s = (.ok none, s) := by
    rw [outcome_ask_taken htaken, perform_get, h]
  rw [find, outcome_bind_ok hget]
  rfl

omit [Viewed σ] in
theorem find_refused {hash : RawText} (h : KeyValue.takes (recordKey hash) s.store = false) :
    (find hash).outcome s = (.error .notEncodable, s) := by
  have hget : (ask (.get (recordKey hash))).outcome s = (.error .notEncodable, s) := by
    rw [outcome_ask_eq, Call.key, h]
    rfl
  rw [find, outcome_bind hget]

/-- A comment that a store holds is found, and nothing else is. -/
theorem Coherent.find_eq (h : Coherent s.store) (hash : RawText) :
    (Viewed.valueAt? s.store (recordKey hash) = none ∧
      ((find hash).outcome s = (.ok none, s) ∨
        (find hash).outcome s = (.error .notEncodable, s))) ∨
    ∃ c, Holds s.store c ∧ c.hash = hash ∧ (find hash).outcome s = (.ok (some c), s) := by
  by_cases hrecord : Viewed.valueAt? s.store (recordKey hash) = none
  · refine .inl ⟨hrecord, ?_⟩
    cases htaken : KeyValue.takes (recordKey hash) s.store with
    | true => exact .inl (find_none hrecord htaken)
    | false => exact .inr (find_refused htaken)
  · obtain ⟨c, hc, rfl⟩ := h.record hash hrecord
    exact .inr ⟨c, hc, rfl, hc.find_eq⟩

/-- What is kept of its password decides who may change a comment. -/
theorem Holds.authorize_eq {c : Comment} (h : Holds s.store c) {salt stored : String}
    {original : RawText} (hmade : Password.hash? salt original = some stored)
    (hstored : Viewed.valueAt? s.store (passwordKey c.hash) = some (.text stored))
    (password : RawText) :
    (authorize c.hash password).outcome s =
      (if opens password stored then .ok c else .error (refusal c.hash password), s) := by
  have htaken : KeyValue.takes (passwordKey c.hash) s.store = true :=
    taken_of_valueAt? (by rw [hstored]; exact Option.some_ne_none _)
  have hget : (ask (.get (passwordKey c.hash))).outcome s = (.ok (some (.text stored)), s) := by
    rw [outcome_ask_taken htaken, perform_get, hstored]
  obtain ⟨hgiven, hpasses⟩ := passes_of_hash hmade password
  have hcheck : Action.outcome (ExceptT.mk (pure (passes password (.text stored)))) s =
      (passes password (.text stored), s) := rfl
  rw [authorize, outcome_bind_ok h.find_eq]
  simp only
  rw [outcome_bind_ok hget]
  simp only [hgiven, Bool.not_true, Bool.false_eq_true, if_false]
  rw [outcome_bind hcheck, hpasses, refusal]
  cases hplain : password.isPlain with
  | true => cases opens password stored <;> rfl
  | false =>
    rw [opens_of_not_isPlain hplain]
    rfl

/-- Who knows the password of a comment is authorized to change it. -/
theorem Coherent.authorize_of_opens (h : Coherent s.store) {c : Comment} (hc : Holds s.store c)
    {password : RawText} {stored : String}
    (hstored : Viewed.valueAt? s.store (passwordKey c.hash) = some (.text stored))
    (hopens : opens password stored = true) :
    (authorize c.hash password).outcome s = (.ok c, s) := by
  obtain ⟨salt, original, stored', heq, hmade⟩ := h.password c.hash _ hstored
  cases heq
  have hauthorize := hc.authorize_eq hmade hstored password
  rwa [hopens, if_pos rfl] at hauthorize

theorem Coherent.authorize_eq (h : Coherent s.store) (hash password : RawText) :
    (∃ fault, (authorize hash password).outcome s = (.error fault, s)) ∨
    ∃ (c : Comment) (stored : String), Holds s.store c ∧ c.hash = hash ∧
      Viewed.valueAt? s.store (passwordKey hash) = some (.text stored) ∧
      opens password stored = true ∧ (authorize hash password).outcome s = (.ok c, s) := by
  obtain ⟨-, hfind⟩ | ⟨c, hc, rfl, hfind⟩ := h.find_eq hash
  · rcases hfind with hfind | hfind
    · exact .inl ⟨.notFound hash, by rw [authorize, outcome_bind_ok hfind]; rfl⟩
    · exact .inl ⟨.notEncodable, by rw [authorize, outcome_bind hfind]⟩
  · cases hvalue : Viewed.valueAt? s.store (passwordKey c.hash) with
    | none =>
      have hget := outcome_ask_eq (.get (passwordKey c.hash)) s
      rw [authorize, outcome_bind_ok hfind]
      simp only
      cases htaken : KeyValue.takes (passwordKey c.hash) s.store with
      | true =>
        rw [Call.key, htaken, if_pos rfl, perform_get, hvalue] at hget
        rw [outcome_bind_ok hget]
        exact .inl ⟨.locked c.hash, rfl⟩
      | false =>
        rw [Call.key, htaken] at hget
        rw [outcome_bind hget]
        exact .inl ⟨.notEncodable, rfl⟩
    | some value =>
      obtain ⟨salt, original, stored, rfl, hmade⟩ := h.password c.hash value hvalue
      have hauthorize := hc.authorize_eq hmade hvalue password
      cases hopens : opens password stored with
      | false =>
        rw [hopens] at hauthorize
        exact .inl ⟨_, hauthorize⟩
      | true =>
        rw [hopens] at hauthorize
        exact .inr ⟨c, stored, hc, rfl, rfl, hopens, hauthorize⟩

/-- Who is authorized once is so whatever else is drawn. -/
theorem Coherent.authorized_again {s : σ} (h : Coherent s) {hash password : RawText} {c : Comment}
    {t : Supply} (hauthorized : ((authorize hash password).outcome ⟨s, t⟩).1 = .ok c)
    (supply : Supply) :
    (authorize hash password).outcome ⟨s, supply⟩ = (.ok c, ⟨s, supply⟩) := by
  obtain ⟨fault, hfault⟩ | ⟨d, stored, hd, rfl, hstored, hopens, hok⟩ :=
    Coherent.authorize_eq (s := ⟨s, t⟩) h hash password
  · rw [hfault] at hauthorized
    cases hauthorized
  · rw [hok] at hauthorized
    cases hauthorized
    exact Coherent.authorize_of_opens (s := ⟨s, supply⟩) h hd hstored hopens

/-- A list of a post shows all that its index names, in that order. -/
theorem Coherent.list_eq (h : Coherent s.store) {post : RawText}
    (htaken : KeyValue.takes (indexKey post) s.store = true) :
    ∃ cs, (list post).outcome s = (.ok cs, s) ∧
      cs.map Comment.hash = Viewed.listAt s.store (indexKey post) ∧
      ∀ c ∈ cs, Holds s.store c ∧ c.post = post := by
  have hall (hashes : List RawText)
      (hheld : ∀ hash ∈ hashes, ∃ c, Holds s.store c ∧ c.hash = hash ∧ c.post = post) :
      ∃ cs, (findAll hashes).outcome s = (.ok cs, s) ∧ cs.map Comment.hash = hashes ∧
        ∀ c ∈ cs, Holds s.store c ∧ c.post = post := by
    induction hashes with
    | nil => exact ⟨[], rfl, rfl, fun c hc => nomatch hc⟩
    | cons hash rest ih =>
      obtain ⟨c, hc, rfl, hpost⟩ := hheld hash List.mem_cons_self
      obtain ⟨cs, hrest, hhashes, hcs⟩ := ih fun d hd => hheld d (List.mem_cons_of_mem _ hd)
      refine ⟨c :: cs, ?_, by rw [List.map_cons, hhashes], ?_⟩
      · rw [findAll, outcome_bind_ok hc.find_eq, outcome_bind_ok hrest]
        rfl
      · intro d hd
        rcases List.mem_cons.mp hd with rfl | hd
        · exact ⟨hc, hpost⟩
        · exact hcs d hd
  have hitems : (ask (.items (indexKey post))).outcome s =
      (.ok (Viewed.listAt s.store (indexKey post)), s) := by
    rw [outcome_ask_taken htaken, perform_items]
  rw [list, outcome_bind_ok hitems]
  exact hall _ (h.indexed post)

end Reading

/-! ## One call at a time -/

section Keys

variable {s : σ} (h : Coherent s)
include h

theorem Coherent.valueAt?_indexKey (post : RawText) : Viewed.valueAt? s (indexKey post) = none := by
  refine Classical.byContradiction fun hvalue => ?_
  obtain ⟨hash, hkey⟩ := h.valueKeys _ hvalue
  simp at hkey

theorem Coherent.listAt_recordKey (hash : RawText) : Viewed.listAt s (recordKey hash) = [] := by
  refine Classical.byContradiction fun hlist => ?_
  obtain ⟨post, hkey⟩ := h.listKeys _ hlist
  simp at hkey

theorem Coherent.listAt_passwordKey (hash : RawText) : Viewed.listAt s (passwordKey hash) = [] := by
  refine Classical.byContradiction fun hlist => ?_
  obtain ⟨post, hkey⟩ := h.listKeys _ hlist
  simp at hkey

/-- What no record is under, no index names. -/
theorem Coherent.not_listed {hash : RawText}
    (hrecord : Viewed.valueAt? s (recordKey hash) = none) (post : RawText) :
    hash ∉ Viewed.listAt s (indexKey post) := by
  intro hmem
  obtain ⟨c, hc, rfl, -⟩ := h.indexed post hash hmem
  rw [hc.record] at hrecord
  cases hrecord

/-- A comment is in no index but that of its post. -/
theorem Coherent.post_of_listed {c : Comment} (hc : Holds s c) {post : RawText}
    (hmem : c.hash ∈ Viewed.listAt s (indexKey post)) : c.post = post := by
  obtain ⟨d, hd, hhash, rfl⟩ := h.indexed post c.hash hmem
  rw [hc.unique hd hhash.symm]

/-- A record may be written over another one of the same post, or where none is. -/
theorem Coherent.setRecord {c : Comment} (hdated : c.Dated)
    (hpost : ∀ post, c.hash ∈ Viewed.listAt s (indexKey post) → c.post = post) :
    Coherent (KeyValue.perform (.set (recordKey c.hash) c.toJson) s).2 := by
  obtain htaken | hsame := taken_or_same (.set (recordKey c.hash) c.toJson) s
  case inr =>
    rw [hsame]
    exact h
  rw [Call.key] at htaken
  have hnow : Holds (KeyValue.perform (.set (recordKey c.hash) c.toJson) s).2 c :=
    ⟨by simp [htaken], hdated⟩
  have hkept {d : Comment} (hd : Holds s d) (hne : d.hash ≠ c.hash) :
      Holds (KeyValue.perform (.set (recordKey c.hash) c.toJson) s).2 d :=
    ⟨by simp [htaken, hne, hd.record], hd.dated⟩
  constructor
  case index_nodup => simpa using h.index_nodup
  case indexed =>
    intro post hash hmem
    have hmem' : hash ∈ Viewed.listAt s (indexKey post) := by simpa using hmem
    by_cases hhash : hash = c.hash
    · subst hhash
      exact ⟨c, hnow, rfl, hpost post hmem'⟩
    · obtain ⟨d, hd, rfl, hdpost⟩ := h.indexed post hash hmem'
      exact ⟨d, hkept hd hhash, rfl, hdpost⟩
  case record =>
    intro hash hrecord
    by_cases hhash : hash = c.hash
    · exact ⟨c, hnow, hhash.symm⟩
    · obtain ⟨d, hd, rfl⟩ := h.record hash (by simpa [htaken, hhash] using hrecord)
      exact ⟨d, hkept hd hhash, rfl⟩
  case password => simpa [htaken] using h.password
  case valueKeys =>
    intro key
    by_cases hkey : key = recordKey c.hash
    · exact fun _ => ⟨c.hash, .inl hkey⟩
    · simpa [htaken, hkey] using h.valueKeys key
  case listKeys => simpa [h.listAt_recordKey] using h.listKeys

/-- Where the records stay, the rest may change as long as the indexes name what
is there. -/
theorem Coherent.sameRecords {s' : σ}
    (hrecords : ∀ hash, Viewed.valueAt? s' (recordKey hash) = Viewed.valueAt? s (recordKey hash))
    (hnodup : ∀ post, (Viewed.listAt s' (indexKey post)).Nodup)
    (hindexed : ∀ post, ∀ hash ∈ Viewed.listAt s' (indexKey post),
      ∃ c, Holds s c ∧ c.hash = hash ∧ c.post = post)
    (hpassword : ∀ hash, ∀ value ∈ Viewed.valueAt? s' (passwordKey hash),
      ∃ (salt : String) (password : RawText) (stored : String),
        value = .text stored ∧ Password.hash? salt password = some stored)
    (hvalueKeys : ∀ key, Viewed.valueAt? s' key ≠ none →
      ∃ hash, key = recordKey hash ∨ key = passwordKey hash)
    (hlistKeys : ∀ key, Viewed.listAt s' key ≠ [] → ∃ post, key = indexKey post) :
    Coherent s' := by
  have hkept {c : Comment} (hc : Holds s c) : Holds s' c := ⟨by rw [hrecords, hc.record], hc.dated⟩
  refine ⟨hnodup, fun post hash hmem => ?_, fun hash hrecord => ?_, hpassword, hvalueKeys,
    hlistKeys⟩
  · obtain ⟨c, hc, hhash, hpost⟩ := hindexed post hash hmem
    exact ⟨c, hkept hc, hhash, hpost⟩
  · rw [hrecords] at hrecord
    obtain ⟨c, hc, hhash⟩ := h.record hash hrecord
    exact ⟨c, hkept hc, hhash⟩

/-- What is there may be named in the index of its post. -/
theorem Coherent.prepend {c : Comment} (hc : Holds s c)
    (hnew : c.hash ∉ Viewed.listAt s (indexKey c.post)) :
    Coherent (KeyValue.perform (.prepend (indexKey c.post) c.hash) s).2 := by
  obtain htaken | hsame := taken_or_same (.prepend (indexKey c.post) c.hash) s
  case inr =>
    rw [hsame]
    exact h
  rw [Call.key] at htaken
  apply h.sameRecords
  case hrecords => simp
  case hnodup =>
    intro post
    by_cases hpost : post = c.post
    · simpa [htaken, hpost, hnew] using h.index_nodup c.post
    · simpa [htaken, hpost] using h.index_nodup post
  case hindexed =>
    intro post hash hmem
    by_cases hpost : post = c.post
    · subst hpost
      rw [Viewed.listAt_prepend (indexKey c.post) _ _ _ htaken, if_pos rfl] at hmem
      rcases List.mem_cons.mp hmem with rfl | hmem
      · exact ⟨c, hc, rfl, rfl⟩
      · exact h.indexed _ hash hmem
    · exact h.indexed post hash (by simpa [htaken, hpost] using hmem)
  case hpassword => simpa using h.password
  case hvalueKeys => simpa [h.valueAt?_indexKey] using h.valueKeys
  case hlistKeys =>
    intro key
    by_cases hkey : key = indexKey c.post
    · exact fun _ => ⟨c.post, hkey⟩
    · simpa [htaken, hkey] using h.listKeys key

theorem Coherent.setPassword {salt stored : String} {password : RawText}
    (hstored : Password.hash? salt password = some stored) (hash : RawText) :
    Coherent (KeyValue.perform (.set (passwordKey hash) (.text stored)) s).2 := by
  obtain htaken | hsame := taken_or_same (.set (passwordKey hash) (.text stored)) s
  case inr =>
    rw [hsame]
    exact h
  rw [Call.key] at htaken
  apply h.sameRecords
  case hrecords => simp [htaken]
  case hnodup => simpa using h.index_nodup
  case hindexed => simpa using h.indexed
  case hpassword =>
    intro other value hvalue
    by_cases hother : other = hash
    · have hvalue' : Json.text stored = value := by
        simpa [htaken, hother, Json.nonNull?] using hvalue
      exact ⟨salt, password, stored, hvalue'.symm, hstored⟩
    · exact h.password other value (by simpa [htaken, hother] using hvalue)
  case hvalueKeys =>
    intro key
    by_cases hkey : key = passwordKey hash
    · exact fun _ => ⟨hash, .inr hkey⟩
    · simpa [htaken, hkey] using h.valueKeys key
  case hlistKeys => simpa [h.listAt_passwordKey] using h.listKeys

/-- An entry may go at any time. -/
theorem Coherent.unlist (post hash : RawText) :
    Coherent (KeyValue.perform (.remove (indexKey post) hash) s).2 := by
  have hsub (other : RawText) :
      (Viewed.listAt (KeyValue.perform (.remove (indexKey post) hash) s).2 (indexKey other)).Sublist
        (Viewed.listAt s (indexKey other)) := by
    rw [Viewed.listAt_remove]
    split
    · next hkey => rw [hkey]; exact List.filter_sublist
    · exact List.Sublist.refl _
  apply h.sameRecords
  case hrecords => simp
  case hnodup => exact fun other => (h.index_nodup other).sublist (hsub other)
  case hindexed => exact fun other hash' hmem => h.indexed other hash' ((hsub other).subset hmem)
  case hpassword => simpa using h.password
  case hvalueKeys => simpa using h.valueKeys
  case hlistKeys =>
    intro key
    by_cases hkey : key = indexKey post
    · exact fun _ => ⟨post, hkey⟩
    · simpa [hkey] using h.listKeys key

theorem Coherent.deletePassword (hash : RawText) :
    Coherent (KeyValue.perform (.delete (passwordKey hash)) s).2 := by
  apply h.sameRecords
  case hrecords => simp
  case hnodup => simpa using h.index_nodup
  case hindexed => simpa using h.indexed
  case hpassword =>
    intro other value hvalue
    by_cases hother : other = hash
    · simp [hother] at hvalue
    · exact h.password other value (by simpa [hother] using hvalue)
  case hvalueKeys =>
    intro key hvalue
    simp at hvalue
    exact h.valueKeys key hvalue.2
  case hlistKeys =>
    intro key hlist
    simp at hlist
    exact h.listKeys key hlist.2

/-- A record may go when no index names it. -/
theorem Coherent.deleteRecord {hash : RawText}
    (hnot : ∀ post, hash ∉ Viewed.listAt s (indexKey post)) :
    Coherent (KeyValue.perform (.delete (recordKey hash)) s).2 := by
  have hkept {d : Comment} (hd : Holds s d) (hne : d.hash ≠ hash) :
      Holds (KeyValue.perform (.delete (recordKey hash)) s).2 d :=
    ⟨by simp [hne, hd.record], hd.dated⟩
  constructor
  case index_nodup => simpa using h.index_nodup
  case indexed =>
    intro post other hmem
    have hmem' : other ∈ Viewed.listAt s (indexKey post) := by simpa using hmem
    obtain ⟨d, hd, rfl, hpost⟩ := h.indexed post other hmem'
    exact ⟨d, hkept hd fun heq => hnot post (heq ▸ hmem'), rfl, hpost⟩
  case record =>
    intro other hrecord
    by_cases hother : other = hash
    · simp [hother] at hrecord
    · obtain ⟨d, hd, rfl⟩ := h.record other (by simpa [hother] using hrecord)
      exact ⟨d, hkept hd hother, rfl⟩
  case password => simpa using h.password
  case valueKeys =>
    intro key hvalue
    simp at hvalue
    exact h.valueKeys key hvalue.2
  case listKeys =>
    intro key hlist
    simp at hlist
    exact h.listKeys key hlist.2

end Keys

/-! ## The changes -/

/-- What is kept of a password was made by hashing it. -/
theorem hash_of_lockFor {salt stored : String} {password : Option RawText}
    (h : (lockFor salt password).toOption.join = some stored) :
    ∃ password : RawText, Password.hash? salt password = some stored := by
  rw [lockFor] at h
  split at h
  · cases h
  · next password _ =>
    split at h
    · next hstored =>
      cases h
      exact ⟨password, hstored⟩
    · cases h

section Writing

variable {s : σ} (h : Coherent s)
include h

/-- The record comes first, so the index never names what is not there. -/
theorem Coherent.throughout_new {c : Comment} {lock : Option String} (hdated : c.Dated)
    (hfresh : Viewed.valueAt? s (recordKey c.hash) = none)
    (htaken : KeyValue.takes (recordKey c.hash) s = true)
    (hlock : ∀ stored ∈ lock, ∃ (salt : String) (password : RawText),
      Password.hash? salt password = some stored) :
    Throughout Coherent (newCalls c lock) s := by
  have hnot := h.not_listed hfresh
  have hset := h.setRecord hdated fun post hmem => absurd hmem (hnot post)
  have hprepend := hset.prepend (c := c) ⟨by simp [htaken], hdated⟩ (by simpa using hnot c.post)
  refine throughout_cons h (throughout_cons hset ?_)
  cases lock with
  | none => exact throughout_nil hprepend
  | some stored =>
    obtain ⟨salt, password, hstored⟩ := hlock stored rfl
    exact throughout_cons hprepend (throughout_nil (hprepend.setPassword hstored c.hash))

/-- The entry goes first, so no index names what is gone. -/
theorem Coherent.not_listed_unlisted {c : Comment} (hc : Holds s c) (post : RawText) :
    c.hash ∉ Viewed.listAt (KeyValue.perform (.remove (indexKey c.post) c.hash) s).2
      (indexKey post) := by
  rw [Viewed.listAt_remove]
  split
  · simp
  · next hkey =>
    exact fun hmem => hkey (congrArg indexKey (h.post_of_listed hc hmem).symm)

theorem Coherent.throughout_removal {c : Comment} (hc : Holds s c) :
    Throughout Coherent (removalCalls c.post c.hash) s := by
  have hunlist := h.unlist c.post c.hash
  have hrecord := hunlist.deleteRecord (h.not_listed_unlisted hc)
  exact throughout_cons h (throughout_cons hunlist
    (throughout_cons hrecord (throughout_nil (hrecord.deletePassword c.hash))))

/-- After a removal nothing is left of a comment. -/
theorem Coherent.gone_of_removal {c : Comment} (hc : Holds s c) :
    let s' := storeAfter (removalCalls c.post c.hash) s
    Viewed.valueAt? s' (recordKey c.hash) = none ∧ Viewed.valueAt? s' (passwordKey c.hash) = none ∧
      ∀ post, c.hash ∉ Viewed.listAt s' (indexKey post) := by
  refine ⟨by simp [removalCalls], by simp [removalCalls], fun post hmem => ?_⟩
  exact h.not_listed_unlisted hc post (by simpa [removalCalls] using hmem)

end Writing

section Changes

variable {s : Site σ} (h : Coherent s.store)
include h

theorem coherent_create (config : Config) (post message : RawText)
    (author password parent : Option RawText) :
    Throughout Coherent ((create config post message author password parent).calls s) s.store := by
  have hreads := reads_chooseHash (σ := σ) post parent s
  obtain ⟨fault, -, hcalls⟩ | ⟨c, s', writes, hchoose, -, hdated, hwrote, hcalls⟩ :=
    create_calls config post message author password parent s
  · rw [hcalls]
    exact throughout_reads hreads h
  · rw [hcalls]
    refine throughout_reads_append hreads (Throughout.of_isPrefix (h.throughout_new hdated
      (chooseHash_fresh hchoose) (chooseHash_taken hchoose) ?_) hwrote.isPrefix)
    intro stored hstored
    exact ⟨config.salt, hash_of_lockFor hstored⟩

theorem coherent_update (hash password message : RawText) :
    Throughout Coherent ((update hash password message).calls s) s.store := by
  have hreads := reads_authorize (σ := σ) hash password s
  obtain ⟨fault, -, hcalls⟩ | ⟨c, s', time, hauthorize, htime, -, hcalls⟩ :=
    update_calls hash password message s
  · rw [hcalls]
    exact throughout_reads hreads h
  · obtain ⟨fault, hfault⟩ | ⟨d, stored, hd, rfl, -, -, hok⟩ := h.authorize_eq hash password
    · rw [hfault] at hauthorize
      cases hauthorize
    · rw [hok] at hauthorize
      cases hauthorize
      rw [hcalls]
      have hdated : (edited message time c).Dated := ⟨hd.dated.created, by rintro _ ⟨⟩; exact htime⟩
      have hset := h.setRecord hdated fun post hmem => h.post_of_listed hd hmem
      exact throughout_reads_append hreads (throughout_cons h (throughout_nil hset))

theorem coherent_delete (hash password : RawText) :
    Throughout Coherent ((delete hash password).calls s) s.store := by
  have hreads := reads_authorize (σ := σ) hash password s
  obtain ⟨fault, -, hcalls⟩ | ⟨c, s', hauthorize, -, hcalls⟩ := delete_calls hash password s
  · rw [hcalls]
    exact throughout_reads hreads h
  · obtain ⟨fault, hfault⟩ | ⟨d, stored, hd, rfl, -, -, hok⟩ := h.authorize_eq hash password
    · rw [hfault] at hauthorize
      cases hauthorize
    · rw [hok] at hauthorize
      cases hauthorize
      rw [hcalls]
      exact throughout_reads_append hreads (h.throughout_removal hd)

end Changes

end CommentThreads.Store
