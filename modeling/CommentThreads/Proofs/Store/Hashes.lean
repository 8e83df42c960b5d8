/-
CommentThreads.Proofs.Store.Hashes — how much an operation tells about the hashes of
passwords in the store.

* `SameButHashes` — two stores in memory hold the same, but for the hashes that they
  keep for passwords; which comments have one is the same too.
* `Alike` — two sites with such stores, where the same is drawn. Runs of every operation
  that reads (`discreet_threads`, `discreet_find`) or creates (`matches_create`) have the
  same result there and end at sites that are alike; so do runs of one that changes a
  comment if the check has the same outcome (`matches_update`, `matches_delete`).

Nothing is assumed about what the stores hold besides: records may be broken, and an
index may name what is not there. The passwords of the two runs may be different ones.
-/
import CommentThreads.Proofs.Store.Refinement
import CommentThreads.Proofs.Store.Verdict

namespace CommentThreads.Store

/-! ## Stores that are the same but for hashes -/

/-- What two stores hold for a password: both nothing, or a hash each. -/
inductive Veiled : Option Json → Option Json → Prop
  | none : Veiled none none
  | hashes {stored stored' : String} (hash : IsHash stored) (hash' : IsHash stored') :
      Veiled (some (.text stored)) (some (.text stored'))

/-- Two stores that hold the same at every key, but for the hashes of passwords. -/
structure SameButHashes (m m' : Memory) : Prop where
  list : ∀ key, Entries.get? key m.lists = Entries.get? key m'.lists
  value : ∀ key, (∀ hash, key ≠ passwordKey hash) →
    Entries.get? key m.values = Entries.get? key m'.values
  password : ∀ hash, Veiled (Entries.get? (passwordKey hash) m.values)
    (Entries.get? (passwordKey hash) m'.values)

namespace SameButHashes

variable {m m' : Memory}

theorem listAt (h : SameButHashes m m') (key : RawText) : m.listAt key = m'.listAt key := by
  rw [Memory.listAt, h.list, Memory.listAt]

theorem valueAt? (h : SameButHashes m m') {key : RawText} (hkey : ∀ hash, key ≠ passwordKey hash) :
    m.valueAt? key = m'.valueAt? key := by
  rw [Memory.valueAt?, h.value key hkey, Memory.valueAt?]

/-- What is read for a password is what is held. -/
theorem veiled (h : SameButHashes m m') (hash : RawText) :
    Veiled (m.valueAt? (passwordKey hash)) (m'.valueAt? (passwordKey hash)) := by
  rw [Memory.valueAt?, Memory.valueAt?]
  generalize hheld : Entries.get? (passwordKey hash) m.values = held
  generalize hheld' : Entries.get? (passwordKey hash) m'.values = held'
  have hveiled : Veiled held held' := hheld ▸ hheld' ▸ h.password hash
  cases hveiled with
  | none => exact .none
  | hashes hstored hstored' => exact .hashes hstored hstored'

/-- New lists at one key, the same in both. -/
theorem put_list (h : SameButHashes m m') (key : RawText) (items : List RawText) :
    SameButHashes { m with lists := Entries.put key items m.lists }
      { m' with lists := Entries.put key items m'.lists } where
  list other := by
    rw [Entries.get?_put, Entries.get?_put, h.list]
  value := h.value
  password := h.password

/-- A new value at a key that is none of a password, the same in both. -/
theorem put_value (h : SameButHashes m m') {key : RawText} (hkey : ∀ hash, key ≠ passwordKey hash)
    (value : Json) :
    SameButHashes { m with values := Entries.put key value m.values }
      { m' with values := Entries.put key value m'.values } where
  list := h.list
  value other hother := by
    rw [Entries.get?_put, Entries.get?_put, h.value other hother]
  password hash := by
    rw [Entries.get?_put, Entries.get?_put, if_neg (hkey hash).symm, if_neg (hkey hash).symm]
    exact h.password hash

/-- The hash of a password in either. -/
theorem put_hash (h : SameButHashes m m') (hash : RawText) {stored stored' : String}
    (hstored : IsHash stored) (hstored' : IsHash stored') :
    SameButHashes { m with values := Entries.put (passwordKey hash) (.text stored) m.values }
      { m' with values := Entries.put (passwordKey hash) (.text stored') m'.values } where
  list := h.list
  value other hother := by
    rw [Entries.get?_put, Entries.get?_put, if_neg (hother hash), if_neg (hother hash),
      h.value other hother]
  password other := by
    rw [Entries.get?_put, Entries.get?_put]
    split
    · exact .hashes hstored hstored'
    · exact h.password other

/-- Whatever a key holds is taken away from both. -/
theorem erase (h : SameButHashes m m') (key : RawText) :
    SameButHashes ⟨Entries.erase key m.values, Entries.erase key m.lists⟩
      ⟨Entries.erase key m'.values, Entries.erase key m'.lists⟩ where
  list other := by
    rw [Entries.get?_erase, Entries.get?_erase, h.list]
  value other hother := by
    rw [Entries.get?_erase, Entries.get?_erase, h.value other hother]
  password hash := by
    rw [Entries.get?_erase, Entries.get?_erase]
    split
    · exact .none
    · exact h.password hash

end SameButHashes

/-- Two sites whose stores are the same but for hashes, and where the same is drawn. -/
structure Alike (site site' : Site Memory) : Prop where
  store : SameButHashes site.store site'.store
  supply : site.supply = site'.supply

/-! ## Actions that tell nothing -/

/-- An action tells nothing of the hashes in the store. -/
def Discreet {α : Type} (a : Action α) : Prop :=
  ∀ site site', Alike site site' → Matches Alike (a.outcome site) (a.outcome site')

section Building

variable {α β : Type} {site site' : Site Memory}

theorem discreet_pure (x : α) : Discreet (pure x : Action α) := fun _ _ h => ⟨rfl, h⟩

theorem discreet_throw (fault : Fault) : Discreet (throw fault : Action α) := fun _ _ h => ⟨rfl, h⟩

theorem discreet_bind {a : Action α} {f : α → Action β} (ha : Discreet a)
    (hf : ∀ x, Discreet (f x)) : Discreet (a >>= f) :=
  fun site site' h => matches_bind (ha site site' h) fun x => hf x

theorem discreet_get {key : RawText} (hkey : ∀ hash, key ≠ passwordKey hash) :
    Discreet (ask (.get key)) :=
  fun _ _ h => ⟨congrArg Except.ok (h.store.valueAt? hkey), h⟩

theorem discreet_items (key : RawText) : Discreet (ask (.items key)) :=
  fun _ _ h => ⟨congrArg Except.ok (h.store.listAt key), h⟩

theorem discreet_set {key : RawText} (hkey : ∀ hash, key ≠ passwordKey hash) (value : Json) :
    Discreet (ask (.set key value)) :=
  fun _ _ h => ⟨rfl, h.store.put_value hkey value, h.supply⟩

theorem discreet_delete (key : RawText) : Discreet (ask (.delete key)) :=
  fun _ _ h => ⟨rfl, h.store.erase key, h.supply⟩

theorem discreet_prepend (key item : RawText) : Discreet (ask (.prepend key item)) := by
  intro site site' h
  refine ⟨rfl, ?_, h.supply⟩
  have hput := h.store.put_list key (item :: site.store.listAt key)
  rw [outcome_ask, outcome_ask]
  simp only [Site.perform, KeyValue.perform, Memory.perform, ← h.store.listAt key]
  exact hput

theorem discreet_remove (key item : RawText) : Discreet (ask (.remove key item)) := by
  intro site site' h
  refine ⟨rfl, ?_, h.supply⟩
  rw [outcome_ask, outcome_ask]
  simp only [Site.perform, KeyValue.perform, Memory.perform, ← h.store.list key]
  cases Entries.get? key site.store.lists with
  | none => exact h.store
  | some items => exact h.store.put_list key _

theorem discreet_freshHash : Discreet freshHash := by
  intro site site' h
  rw [outcome_freshHash, outcome_freshHash, ← h.supply]
  exact ⟨rfl, h.store, rfl⟩

theorem discreet_currentTime : Discreet currentTime := by
  intro site site' h
  rw [outcome_currentTime, outcome_currentTime, ← h.supply]
  exact ⟨rfl, h.store, rfl⟩

end Building

/-! ## Operations that read -/

section Reading

theorem discreet_loadRecord (record : Json) : Discreet (loadRecord record) := by
  have hunless {α : Type} {key : String} {unused : α} {make : Action α} (hmake : Discreet make) :
      Discreet (unlessPresent key record unused make) := by
    unfold unlessPresent
    split
    · exact discreet_pure _
    · exact hmake
  unfold loadRecord
  split
  · refine discreet_bind (hunless discreet_freshHash) fun hash => ?_
    refine discreet_bind (hunless discreet_currentTime) fun created => ?_
    split
    · exact discreet_pure _
    · exact discreet_throw _
  · exact discreet_throw _

theorem discreet_find (hash : RawText) : Discreet (find hash) := by
  unfold find
  refine discreet_bind (discreet_get (recordKey_ne_passwordKey hash)) fun found => ?_
  cases found with
  | none => exact discreet_pure _
  | some record => exact discreet_bind (discreet_loadRecord record) fun c => discreet_pure _

theorem discreet_findAll (hashes : List RawText) : Discreet (findAll hashes) := by
  induction hashes with
  | nil => exact discreet_pure _
  | cons hash rest ih =>
    rw [findAll]
    exact discreet_bind (discreet_find hash) fun found =>
      discreet_bind ih fun others => discreet_pure _

theorem discreet_threads (post : RawText) : Discreet (threads post) :=
  discreet_bind
    (discreet_bind (discreet_items _) fun hashes => discreet_findAll hashes)
    fun _ => discreet_pure _

theorem discreet_newHash (attempts : Nat) : Discreet (newHash attempts) := by
  induction attempts with
  | zero => exact discreet_throw _
  | succ attempts ih =>
    rw [newHash]
    refine discreet_bind discreet_freshHash fun hash => ?_
    refine discreet_bind (discreet_get (recordKey_ne_passwordKey hash)) fun found => ?_
    cases found with
    | none => exact discreet_pure _
    | some record => exact ih

theorem discreet_findOn (post hash : RawText) : Discreet (findOn post hash) := by
  unfold findOn
  refine discreet_bind (discreet_find hash) fun found => ?_
  cases found with
  | none => exact discreet_throw _
  | some c =>
    simp only
    split
    · exact discreet_pure _
    · exact discreet_throw _

theorem discreet_resolveGiven (post : RawText) (parent : Option RawText) :
    Discreet (resolveGiven post parent) := by
  have hresolve (hash : RawText) : Discreet (resolveParent post hash) := by
    unfold resolveParent
    refine discreet_bind (discreet_findOn post hash) fun c => ?_
    split
    · exact discreet_pure _
    · exact discreet_bind (discreet_findOn post _) fun root => discreet_pure _
  unfold resolveGiven
  split
  · exact discreet_pure _
  · exact discreet_bind (hresolve _) fun root => discreet_pure _

end Reading

/-! ## Creating a comment -/

theorem matches_setHash {site site' : Site Memory} (h : Alike site site') (hash : RawText)
    {stored stored' : String} (hstored : IsHash stored) (hstored' : IsHash stored') :
    Matches Alike ((ask (.set (passwordKey hash) (.text stored))).outcome site)
      ((ask (.set (passwordKey hash) (.text stored'))).outcome site') :=
  ⟨rfl, h.store.put_hash hash hstored hstored', h.supply⟩

/-- A password is kept, or not, whatever it is. -/
theorem matches_keepPassword {config : Config} {hash : RawText}
    {password password' : Option RawText}
    (hgiven : GivenAlike password password') {site site' : Site Memory} (h : Alike site site') :
    Matches Alike ((keepPassword config hash password).outcome site)
      ((keepPassword config hash password').outcome site') := by
  rcases keepPassword_cases config hash hgiven with
    ⟨ended, hkeep, hkeep'⟩ | ⟨stored, stored', hstored, hstored', hkeep, hkeep'⟩
  · rw [hkeep, hkeep']
    exact ⟨rfl, h⟩
  · rw [hkeep, hkeep']
    exact matches_setHash h hash hstored hstored'

/-- What is created does not depend on the password, if one is given. -/
theorem matches_create (config : Config) (post message : RawText) (author parent : Option RawText)
    {password password' : Option RawText} (hgiven : GivenAlike password password')
    {site site' : Site Memory} (h : Alike site site') :
    Matches Alike ((create config post message author password parent).outcome site)
      ((create config post message author password' parent).outcome site') := by
  unfold create
  refine matches_bind (discreet_resolveGiven post parent _ _ h) fun parent _ _ h => ?_
  refine matches_bind (discreet_newHash mostAttempts _ _ h) fun hash _ _ h => ?_
  refine matches_bind (discreet_currentTime _ _ h) fun created _ _ h => ?_
  refine matches_bind (discreet_set (recordKey_ne_passwordKey hash) _ _ _ h) fun _ _ _ h => ?_
  refine matches_bind (discreet_prepend _ _ _ _ h) fun _ _ _ h => ?_
  exact matches_bind (matches_keepPassword hgiven h) fun _ _ _ h => matches_pure h _

/-! ## Checking a password -/

/-- The check against a hash has an outcome, if the password can be encoded. -/
theorem passes_of_isHash {stored : String} (h : IsHash stored) (password : RawText) :
    passes password (.text stored) =
      if password.isPlain then .ok (accepts password (.text stored)) else .error .notEncodable := by
  obtain ⟨salt, first, hhash⟩ := h
  have hpasses := (passes_of_hash hhash password).2
  rw [accepts]
  cases hplain : password.isPlain with
  | true =>
    rw [hplain, if_pos rfl] at hpasses
    rw [hpasses, if_pos rfl]
  | false =>
    rw [hplain] at hpasses
    rw [hpasses]
    rfl

theorem isGiven_of_isHash {stored : String} (h : IsHash stored) :
    (Json.text stored).isGiven = true := by
  obtain ⟨salt, first, hhash⟩ := h
  simpa [Json.isGiven] using Password.hash?_ne_empty hhash

/-- Whoever is let in is let in to the same. -/
theorem matches_authorize {hash password password' : RawText} {site site' : Site Memory}
    (h : Alike site site') (hplain : password.isPlain = password'.isPlain)
    (hverdict : verdict hash password site = verdict hash password' site') :
    Matches Alike ((authorize hash password).outcome site)
      ((authorize hash password').outcome site') := by
  obtain ⟨hfound, hafter⟩ := discreet_find hash site site' h
  unfold verdict at hverdict
  unfold authorize
  cases hf : (find hash).outcome site with
  | mk r after =>
    cases hf' : (find hash).outcome site' with
    | mk r' after' =>
      rw [hf, hf'] at hfound hafter hverdict
      cases hfound
      rw [outcome_bind hf, outcome_bind hf']
      cases r with
      | error fault => exact ⟨rfl, hafter⟩
      | ok found =>
        cases found with
        | none => exact matches_throw hafter _
        | some c =>
          have hget (site : Site Memory) : (ask (.get (passwordKey hash))).outcome site =
              (.ok (site.store.valueAt? (passwordKey hash)), site) := rfl
          simp only [outcome_bind_ok (hget _)]
          have hveiled := hafter.store.veiled hash
          change (after.store.valueAt? (passwordKey hash)).map (accepts password) =
            (after'.store.valueAt? (passwordKey hash)).map (accepts password') at hverdict
          generalize after.store.valueAt? (passwordKey hash) = held at hveiled hverdict
          generalize after'.store.valueAt? (passwordKey hash) = held' at hveiled hverdict
          cases hveiled with
          | none => exact matches_throw hafter _
          | @hashes stored stored' hstored hstored' =>
            simp only [Option.map_some, Option.some.injEq] at hverdict
            simp only [isGiven_of_isHash hstored, isGiven_of_isHash hstored', Bool.not_true,
              Bool.false_eq_true, if_false, passes_of_isHash hstored, passes_of_isHash hstored',
              hplain, hverdict]
            refine matches_bind ⟨rfl, hafter⟩ fun b _ _ h => ?_
            cases b with
            | true => exact matches_pure h _
            | false => exact matches_throw h _

/-! ## Changing a comment -/

theorem matches_update {hash password password' : RawText} (message : RawText)
    {site site' : Site Memory} (h : Alike site site')
    (hplain : password.isPlain = password'.isPlain)
    (hverdict : verdict hash password site = verdict hash password' site') :
    Matches Alike ((update hash password message).outcome site)
      ((update hash password' message).outcome site') := by
  unfold update
  refine matches_bind (matches_authorize h hplain hverdict) fun c _ _ h => ?_
  refine matches_bind (discreet_currentTime _ _ h) fun now _ _ h => ?_
  refine matches_bind (discreet_set (recordKey_ne_passwordKey hash) _ _ _ h) fun _ _ _ h => ?_
  exact matches_pure h _

theorem matches_delete {hash password password' : RawText} {site site' : Site Memory}
    (h : Alike site site') (hplain : password.isPlain = password'.isPlain)
    (hverdict : verdict hash password site = verdict hash password' site') :
    Matches Alike ((delete hash password).outcome site)
      ((delete hash password').outcome site') := by
  unfold delete
  refine matches_bind (matches_authorize h hplain hverdict) fun c _ _ h => ?_
  refine matches_bind (discreet_remove _ _ _ _ h) fun _ _ _ h => ?_
  refine matches_bind (discreet_delete _ _ _ h) fun _ _ _ h => ?_
  refine matches_bind (discreet_delete _ _ _ h) fun _ _ _ h => ?_
  exact matches_pure h _

end CommentThreads.Store
