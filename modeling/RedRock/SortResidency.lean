import RedRock.SortCommand

/-! What SORT depends on: the lookups by pattern that it makes, and nothing else on disk. -/

namespace RedRock
open Lib List SortDb

section
variable {F : Type} {lib : SortLib F} {look look' : Bytes → StrObj → Option SortFound}
  {p : SortPlan} {r : List StrObj × Bool}

def LookAlike (look look' : Bytes → StrObj → Option SortFound) (xs : List (Bytes × StrObj)) :
    Prop :=
  ∀ x ∈ xs, look x.1 x.2 = look' x.1 x.2

lemma loadWeights_congr (objs : List StrObj) (c : ConvState)
    (h : ∀ obj ∈ objs, ∀ pattern, p.sortby = some pattern → look pattern obj = look' pattern obj) :
    loadWeights lib look p c objs = loadWeights lib look' p c objs := by
  induction objs generalizing c with
  | nil => rfl
  | cons obj objs ih =>
    have hone : loadWeight lib look p c obj = loadWeight lib look' p c obj := by
      cases hby : p.sortby with
      | none => simp only [loadWeight,hby]
      | some pattern => simp only [loadWeight,hby,h obj mem_cons_self pattern hby]
    simp only [loadWeights,hone,ih _ fun obj hobj => h obj (mem_cons_of_mem _ hobj)]

lemma sortedRange_congr (erange : Bool) (h : LookAlike look look' (weightLookups p)) :
    sortedRange lib look erange p = sortedRange lib look' erange p := by
  by_cases hd : p.dontsort = true
  · simp only [sortedRange,hd,if_true]
  have hweights : loadWeights lib look p ⟨erange,false⟩ p.vector =
      loadWeights lib look' p ⟨erange,false⟩ p.vector := by
    refine loadWeights_congr p.vector _ fun obj hobj pattern hby => h (pattern,obj) ?_
    simp only [weightLookups,hd,hby]
    simpa using hobj
  simp only [sortedRange,hd,hweights]

lemma sortOutput_congr (h : LookAlike look look' (getLookups p r)) :
    sortOutput look p r = sortOutput look' p r := by
  by_cases hr : r.2 = true
  · simp only [sortOutput,hr,if_true]
  have hitems : r.1.flatMap (outputElement look p) = r.1.flatMap (outputElement look' p) := by
    refine flatMap_congr fun obj hobj => ?_
    simp only [outputElement]
    split
    · rfl
    refine map_congr_left fun pattern hpattern => ?_
    rw [h (pattern,obj) ?_]
    simp only [getLookups,hr]
    exact mem_flatMap.mpr ⟨obj,hobj,mem_map.mpr ⟨pattern,hpattern,rfl⟩⟩
  simp only [sortOutput,hr,hitems]

end

namespace SortDb

def inMemory (dict : Sds → Option SortVal) : SortDb := ⟨dict,fun _ => false⟩

/-- The keyspace when SORT runs: `cmdCheckRockForOneKey` has had the key itself restored. -/
def checked (dict : Sds → Option SortVal) (onDisk : Sds → Bool) (key : Sds) : SortDb :=
  ⟨dict,Function.update onDisk key false⟩

/-- The pattern names a dumped value, and either it is not a hash dereference, so that the
placeholder passes for the string that is wanted, or it names a field that the hash has. -/
def Spoiled (db : SortDb) (pattern : Bytes) (subst : StrObj) : Prop :=
  cstr pattern ≠ [35] ∧ ∃ key field v, patternKey pattern subst.text = some (key,field) ∧
    db.dict key = some v ∧ db.onDisk key = true ∧
    (field = none ∨ ∃ f fields o, field = some f ∧ v = .hash fields ∧ fields.lookup f = some o)

lemma dereference_val (v : SortVal) (field : Option Sds) :
    dereference (.val v) field ≠ some .valueInRock := by
  cases v <;> cases field <;> simp [dereference]

lemma dereference_placeholder (v : SortVal) (field : Option Sds) :
    dereference .valueInRock field = dereference (.val v) field ↔ ¬(field = none ∨
        ∃ f fields o, field = some f ∧ v = .hash fields ∧ fields.lookup f = some o) := by
  cases field with
  | none =>
    have hne := (dereference_val v none).symm
    simpa [dereference] using hne
  | some f =>
    cases v with
    | hash fields => cases h : fields.lookup f <;> simp [dereference,h]
    | _ => simp [dereference]

section
variable {db : SortDb} {pattern : Bytes} {subst : StrObj}

lemma lookup_named {key : Sds} {field : Option Sds} (hash : cstr pattern ≠ [35])
    (hkey : patternKey pattern subst.text = some (key,field)) :
    db.lookupKeyByPattern pattern subst = (db.dict key).bind fun v =>
      dereference (if db.onDisk key then .valueInRock else .val v) field := by
  simp only [lookupKeyByPattern,hash,if_false,hkey,lookupKey]
  cases db.dict key with
  | none | some => rfl

lemma lookup_inMemory (dict : Sds → Option SortVal) (pattern : Bytes) (subst : StrObj) :
    (inMemory dict).lookupKeyByPattern pattern subst ≠ some .valueInRock := by
  by_cases hash : cstr pattern = [35]
  · simp [lookupKeyByPattern,hash]
  cases hkey : patternKey pattern subst.text with
  | none => simp [lookupKeyByPattern,hash,hkey]
  | some r =>
    rw [lookup_named hash hkey]
    simp only [inMemory]
    cases dict r.1 with
    | none => simp
    | some v => exact dereference_val v r.2

lemma lookup_eq_iff (db : SortDb) (pattern : Bytes) (subst : StrObj) :
    db.lookupKeyByPattern pattern subst = (inMemory db.dict).lookupKeyByPattern pattern subst ↔
      ¬db.Spoiled pattern subst := by
  by_cases hash : cstr pattern = [35]
  · simp [Spoiled,lookupKeyByPattern,hash]
  cases hkey : patternKey pattern subst.text with
  | none => simp [Spoiled,lookupKeyByPattern,hash,hkey]
  | some r =>
    obtain ⟨key,field⟩ := r
    rw [lookup_named hash hkey,lookup_named hash hkey]
    cases hv : db.dict key with
    | none => simp [Spoiled,hkey,hv,inMemory]
    | some v =>
      cases hdisk : db.onDisk key with
      | false => simp [Spoiled,hkey,hdisk,inMemory,hv]
      | true =>
        have hplace := dereference_placeholder v field
        simp only [inMemory,hv,Option.bind_some,if_true,Bool.false_eq_true,if_false]
        refine hplace.trans (not_congr ⟨fun h => ?_,?_⟩)
        · exact ⟨hash,key,field,v,hkey,hv,hdisk,h⟩
        rintro ⟨-,key',field',v',hkey',hv',-,h⟩
        cases hkey.symm.trans hkey'
        cases hv.symm.trans hv'
        exact h

end

end SortDb

namespace SortEnv
variable {F : Type} (env : SortEnv F)

lemma sortCommand_congr {db db' : SortDb} {key : Sds} {argv : List Sds}
    (hkey : db.lookupKey key = db'.lookupKey key)
    (h : LookAlike db.lookupKeyByPattern db'.lookupKeyByPattern (env.lookups db key argv)) :
    env.sortCommand db key argv = env.sortCommand db' key argv ∧
      env.lookups db key argv = env.lookups db' key argv := by
  simp only [lookups] at h ⊢
  simp only [sortCommand,← hkey]
  match sortPlan env.clusterEnabled env.lua (db.lookupKey key) argv, h with
  | .error e, _ => exact ⟨rfl,rfl⟩
  | .ok (.error e), _ => exact ⟨rfl,rfl⟩
  | .ok (.ok p), h =>
    have hrange : sortedRange env.lib db.lookupKeyByPattern env.erange p =
        sortedRange env.lib db'.lookupKeyByPattern env.erange p :=
      sortedRange_congr env.erange fun x hx => h x (mem_append_left _ hx)
    have hout := sortOutput_congr (p := p)
      (r := sortedRange env.lib db.lookupKeyByPattern env.erange p)
      fun x hx => h x (mem_append_right _ hx)
    refine ⟨?_,?_⟩
    · change Except.ok _ = Except.ok _
      rw [hout,hrange]
    · simp only [hrange]

/-- The reply and the stored list are those of the dataset in memory, and so is every weight and
fetched value, exactly if no lookup that SORT makes is spoiled. -/
theorem sort_resident_iff (dict : Sds → Option SortVal) (onDisk : Sds → Bool) (key : Sds)
    (argv : List Sds) : (env.sortCommand (.checked dict onDisk key) key argv =
        env.sortCommand (.inMemory dict) key argv ∧
      ∀ x ∈ env.lookups (.checked dict onDisk key) key argv,
        (checked dict onDisk key).lookupKeyByPattern x.1 x.2 =
          (inMemory dict).lookupKeyByPattern x.1 x.2 ∧
        (checked dict onDisk key).lookupKeyByPattern x.1 x.2 ≠ some .valueInRock) ↔
      ∀ x ∈ env.lookups (.inMemory dict) key argv,
        ¬(checked dict onDisk key).Spoiled x.1 x.2 := by
  have hkey : (checked dict onDisk key).lookupKey key =
      (inMemory dict).lookupKey key := by
    simp [checked,inMemory,lookupKey]
  constructor
  · rintro ⟨-,hlook⟩ x hx
    have hsame := (env.sortCommand_congr hkey fun x hx => (hlook x hx).1).2
    exact (lookup_eq_iff _ x.1 x.2).mp (hlook x (hsame ▸ hx)).1
  intro h
  have heq : ∀ x ∈ env.lookups (.inMemory dict) key argv,
      (checked dict onDisk key).lookupKeyByPattern x.1 x.2 =
        (inMemory dict).lookupKeyByPattern x.1 x.2 :=
    fun x hx => (lookup_eq_iff (checked dict onDisk key) x.1 x.2).mpr (h x hx)
  obtain ⟨hresult,hsame⟩ := env.sortCommand_congr hkey.symm fun x hx => (heq x hx).symm
  refine ⟨hresult.symm,fun x hx => ?_⟩
  have hx := heq x (hsame ▸ hx)
  exact ⟨hx,hx ▸ lookup_inMemory dict x.1 x.2⟩

end SortEnv

namespace Sample

/-- A list l with the element 1, and w_1 with the string a. -/
def sortDict : Sds → Option SortVal :=
  fun key =>
    if key = [108] then some (.list [.raw [49]])
    else if key = [119,95,49] then some (.str (.raw [97]))
    else none

/-- `strtod` that reads nothing and sorting that keeps the order. -/
def sortEnv : SortEnv Unit :=
  ⟨⟨fun s => ((),s,false),fun _ => (),fun _ _ => false,fun _ => false,(),fun _ _ => 0,
    fun _ xs => xs,fun _ _ _ xs => xs⟩,false,false,false⟩

def getWeights : List Sds := [[98,121],[110,111,115,111,114,116],[103,101,116],[119,95,42]]

end Sample

open Sample

/-- SORT l BY nosort GET w_* where the string at w_1 has been dumped. -/
theorem sort_gets_placeholder :
    sortEnv.sortCommand (.inMemory sortDict) [108] getWeights =
      .ok ⟨.array 1 [some [97]],none⟩ ∧
    sortEnv.sortCommand (.checked sortDict (· = [119,95,49]) [108]) [108]
      getWeights = .ok ⟨.array 1 [some [50,53,48]],none⟩ ∧
    (checked sortDict (· = [119,95,49]) [108]).lookupKeyByPattern [119,95,42]
      (.raw [49]) = some .valueInRock := by
  refine ⟨rfl,?_,rfl⟩
  have htext : SortFound.valueInRock.obj.text = [50,53,48] := by
    norm_num [SortFound.obj,StrObj.text,ll2string,decimal,digitByte]
    decide
  rw [← htext]
  rfl

end RedRock
