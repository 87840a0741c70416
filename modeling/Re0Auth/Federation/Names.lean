import Re0Auth.Federation.Binding

/-!
# Names of games and sources

A binding is stored under `user|game|source` and its secret under the user and `game.source`
(`internal/federation/federation.go`, `binding.go`). Users are arbitrary; what keeps the joins apart is
the set of names the registry admits.

* **`validateSourceName`**: the names that are admitted;
* **`Ref.Named`**: a binding of an admitted game and source;
* **`Ref.Named.bindingKey_inj`**, **`Ref.Named.identity_inj`**: two such bindings share neither a row nor
  a secret.
-/

namespace Re0Auth.Federation

open Lib OAuth Vault List

/-- `maxSourceNameBytes`. -/
def maxSourceNameBytes : ℕ := 128

/-- What `validateSourceName` refuses a name for. -/
inductive NameError
  | tooLong (field : String) (bytes : ℕ)
  | charset (field value : String)
  deriving DecidableEq, Repr

/-- The characters of a name; it does not start with `-` or `_`. -/
def nameChar (first : Bool) (r : Char) : Bool :=
  ('a' ≤ r && r ≤ 'z') || ('0' ≤ r && r ≤ '9') || (!first && (r == '-' || r == '_'))

def nameChars : List Char → Bool
  | [] => true
  | r :: rs => nameChar true r && rs.all (nameChar false)

/-- **`validateSourceName`**. -/
def validateSourceName (field value : String) : Except NameError Unit :=
  if maxSourceNameBytes < value.utf8ByteSize then .error (.tooLong field value.utf8ByteSize)
  else if nameChars value.toList then .ok ()
  else .error (.charset field value)

/-- The game and the source have names the registry admits. -/
def Ref.named (k : Ref) : Bool :=
  k.game != "" && k.source != "" && (validateSourceName "game" k.game).isOk &&
    (validateSourceName "name" k.source).isOk

/-- **A binding of an admitted game and source**, of any user. -/
def Ref.Named (k : Ref) : Prop := k.named = true

instance (k : Ref) : Decidable k.Named := inferInstanceAs (Decidable (_ = true))

theorem nameChar_of_mem {r : Char} {rs : List Char} (h : nameChars rs = true) (hr : r ∈ rs) :
    nameChar false r = true := by
  cases rs with
  | nil => cases hr
  | cons r' rs =>
    simp only [nameChars, Bool.and_eq_true, all_eq_true] at h
    rcases mem_cons.1 hr with rfl | hr
    · have hfirst := h.1
      simp only [nameChar, Bool.not_true, Bool.false_and, Bool.or_false] at hfirst
      simp [nameChar, hfirst]
    · exact h.2 r hr

/-- An admitted name has none of the separators. -/
theorem not_mem_of_valid {field value : String} (h : (validateSourceName field value).isOk = true) {c : Char}
    (hc : nameChar false c = false) : c ∉ value.toList := by
  have hchars : nameChars value.toList = true := by
    by_contra hno
    unfold validateSourceName at h
    split_ifs at h
    all_goals cases h
  intro hr
  rw [nameChar_of_mem hchars hr] at hc
  cases hc

/-- A list is cut at the last separator in one way. -/
theorem append_cons_inj_last {α : Type} {a : α} {xs xs' ys ys' : List α} (hys : a ∉ ys)
    (hys' : a ∉ ys') (h : xs ++ a :: ys = xs' ++ a :: ys') : xs = xs' ∧ ys = ys' := by
  rcases append_eq_append_iff.1 h with ⟨zs, rfl, hzs⟩ | ⟨zs, rfl, hzs⟩
  all_goals
    cases zs with
    | nil => simp_all
    | cons z zs => simp_all

variable {k k' : Ref}

theorem Ref.Named.valid (h : k.Named) {c : Char} (hc : nameChar false c = false) :
    c ∉ k.game.toList ∧ c ∉ k.source.toList := by
  simp only [Ref.Named, Ref.named, Bool.and_eq_true] at h
  exact ⟨not_mem_of_valid h.1.2 hc, not_mem_of_valid h.2 hc⟩

/-- The separator as a list. -/
theorem toList_join (user game source : String) : (user ++ "|" ++ game ++ "|" ++ source).toList =
      (user.toList ++ '|' :: game.toList) ++ '|' :: source.toList := by
  simp [String.toList_append]

/-- **Two bindings have two rows.** The user may contain the separator, the names may not. -/
theorem Ref.Named.bindingKey_inj (h : k.Named) (h' : k'.Named) (heq : k.bindingKey = k'.bindingKey) :
    k = k' := by
  obtain ⟨hg, hs⟩ := h.valid (c := '|') rfl
  obtain ⟨hg', hs'⟩ := h'.valid (c := '|') rfl
  have hlist := congrArg String.toList heq
  rw [Ref.bindingKey, Ref.bindingKey, toList_join, toList_join] at hlist
  obtain ⟨hlist, hsource⟩ := append_cons_inj_last hs hs' hlist
  obtain ⟨huser, hgame⟩ := append_cons_inj_last hg hg' hlist
  obtain ⟨user, game, source⟩ := k
  obtain ⟨user', game', source'⟩ := k'
  simp only [Ref.mk.injEq]
  exact ⟨String.toList_inj.1 huser, String.toList_inj.1 hgame, String.toList_inj.1 hsource⟩

/-- The two names are read off their join. -/
theorem Ref.Named.join_inj (h : k.Named) (h' : k'.Named) {sep : String} {c : Char} (hsep : sep.toList = [c])
    (hc : nameChar false c = false) (heq : k.game ++ sep ++ k.source = k'.game ++ sep ++ k'.source) :
    k.game = k'.game ∧ k.source = k'.source := by
  have hlist := congrArg String.toList heq
  simp only [String.toList_append, hsep, append_assoc] at hlist
  obtain ⟨hgame, hsource⟩ := append_cons_inj_last (h.valid hc).2 (h'.valid hc).2 hlist
  exact ⟨String.toList_inj.1 hgame, String.toList_inj.1 hsource⟩

/-- **Two bindings have two secrets.** -/
theorem Ref.Named.identity_inj (h : k.Named) (h' : k'.Named) (heq : k.identity = k'.identity) : k = k' := by
  obtain ⟨huser, hprovider⟩ := Identity.mk.inj heq
  obtain ⟨hgame, hsource⟩ := h.join_inj h' (c := '.') rfl rfl hprovider
  obtain ⟨user, game, source⟩ := k
  obtain ⟨user', game', source'⟩ := k'
  exact Ref.mk.injEq .. ▸ ⟨huser, hgame, hsource⟩

theorem Ref.Named.key_iff_identity (h : k.Named) (h' : k'.Named) :
    k.bindingKey = k'.bindingKey ↔ k.identity = k'.identity :=
  ⟨fun heq => congrArg Ref.identity (h.bindingKey_inj h' heq),
    fun heq => congrArg Ref.bindingKey (h.identity_inj h' heq)⟩

end Re0Auth.Federation
