import RedRock.Object

/-!
`rock_serdes.c`: the byte format in which values are written to RocksDB, and the
proof that reading it back gives the object that was written.
-/

namespace RedRock
open Lib List

def ROCK_TYPE_STRING : UInt8 := 0
def ROCK_TYPE_SET_HT : UInt8 := 2
def ROCK_TYPE_HASH_HT : UInt8 := 4
def ROCK_TYPE_ZSET_SKIPLIST : UInt8 := 5
def ROCK_TYPE_SET_INTSET : UInt8 := 11
def ROCK_TYPE_ZSET_ZIPLIST : UInt8 := 12
def ROCK_TYPE_HASH_ZIPLIST : UInt8 := 13
def ROCK_TYPE_LIST_QUICKLIST : UInt8 := 14

def OBJ_ENCODING_RAW : UInt8 := 0
def OBJ_ENCODING_INT : UInt8 := 1
def OBJ_ENCODING_EMBSTR : UInt8 := 8

def serObjectType : Content → Except Fault UInt8
  | .int _ | .raw _ | .embstr _ => .ok ROCK_TYPE_STRING
  | .quicklist _ => .ok ROCK_TYPE_LIST_QUICKLIST
  | .intset _ => .ok ROCK_TYPE_SET_INTSET
  | .setHt _ => .ok ROCK_TYPE_SET_HT
  | .zsetZiplist _ => .ok ROCK_TYPE_ZSET_ZIPLIST
  | .zsetSkiplist _ => .ok ROCK_TYPE_ZSET_SKIPLIST
  | .hashZiplist _ => .ok ROCK_TYPE_HASH_ZIPLIST
  | .hashHt _ => .ok ROCK_TYPE_HASH_HT
  | .stream _ | .module _ => .error .serObject

def serList (l : List (Blob 4)) : Bytes := l.flatMap putBlob

def serIntset (is : Intset) : Bytes :=
  leBytes 4 is.encoding ++ leBytes 4 is.length ++ is.contents

def serSetHt (s : SetHt) : Bytes := leBytes 8 s.elems.length ++ s.elems.flatMap putBlob

def putField (f : Blob 8 × Blob 8) : Bytes := putBlob f.1 ++ putBlob f.2

def serHashHt (h : HashHt) : Bytes := leBytes 8 h.fields.length ++ h.fields.flatMap putField

def serZiplist (zl : Ziplist) : Bytes := leBytes 8 zl.blobLen ++ zl.blob

def putNode (x : ZskiplistNode) : Bytes := putBlob x.ele ++ leBytes 8 x.score.toNat

/-- The skiplist is walked from its tail by the backward pointers. -/
def serZskiplist (z : Zskiplist) : Bytes :=
  leBytes 8 z.nodes.length ++ z.nodes.reverse.flatMap putNode

def serContent : Content → Bytes
  | .int v => OBJ_ENCODING_INT :: leBytes 8 v.toNat
  | .raw s => OBJ_ENCODING_RAW :: s
  | .embstr s => OBJ_ENCODING_EMBSTR :: s.val
  | .quicklist l => serList l
  | .intset is => serIntset is
  | .setHt s => serSetHt s
  | .hashZiplist zl | .zsetZiplist zl => serZiplist zl
  | .hashHt h => serHashHt h
  | .zsetSkiplist z => serZskiplist z
  | .stream _ | .module _ => []

def serObject (o : Robj) : Except Fault Bytes := do
  let rockType ← serObjectType o.content
  pure (rockType :: (leBytes 4 o.lru.toNat ++ serContent o.content))

def orDes {α : Type} : Option α → Except Fault α
  | some a => .ok a
  | none => .error .desObject

def desString (cfg : Config) (lru : BitVec 24) : Bytes → Except Fault Robj
  | [] => .error .desObject
  | encoding :: s =>
    if encoding = OBJ_ENCODING_INT then
      if s.length = 8 then
        .ok (createStringObjectFromLongLongForValue cfg (BitVec.ofNat 64 (leNat s)) lru)
      else .error .desObject
    else if encoding = OBJ_ENCODING_RAW then .ok ⟨.raw s,lru,1⟩
    else if encoding = OBJ_ENCODING_EMBSTR then
      if h : s.length ≤ OBJ_ENCODING_EMBSTR_SIZE_LIMIT then .ok ⟨.embstr ⟨s,h⟩,lru,1⟩
      else .error .desObject
    else .error .desObject

section
variable (lru : BitVec 24)

def desList (s : Bytes) : Except Fault Robj := do
  let l ← orDes (getMany (getBlob 4) s.length s)
  pure ⟨.quicklist l,lru,1⟩

def desIntset (s : Bytes) : Except Fault Robj :=
  if h : 8 ≤ s.length then
    let encoding := leNat (s.take 4)
    let length := leNat ((s.drop 4).take 4)
    let contents := s.drop 8
    if hc : contents.length = encoding * length % 256 ^ 4 then
      .ok ⟨.intset ⟨encoding,length,contents,
        by have hn := leNat_lt (s.take 4); rwa [length_take,min_eq_left (by omega)] at hn,
        by
          have hn := leNat_lt ((s.drop 4).take 4)
          rwa [length_take,length_drop,min_eq_left (by omega)] at hn,
        hc⟩,lru,1⟩
    else .error .desObject
  else .error .desObject

/-- `dictAdd` of an element that is already there changes nothing. -/
def desSetHt (s : Bytes) : Except Fault Robj :=
  match takeLe 8 s with
  | none => .error .desObject
  | some (count,s) =>
    match getMany (getBlob 8) s.length s with
    | none => .error .desObject
    | some elems =>
      if h : elems.length = count ∧ count < 256 ^ 8 then
        .ok ⟨.setHt ⟨elems.dedup,elems.nodup_dedup,by
          have hl := elems.dedup_sublist.length_le
          omega⟩,lru,1⟩
      else .error .desObject

def desZiplist (s : Bytes) : Except Fault Ziplist :=
  match takeLe 8 s with
  | none => .error .desObject
  | some (len,s) =>
    if s.length = len then
      match takeLe 4 s with
      | none => .error .desObject
      | some (zlbytes,body) =>
        if h : zlbytes = body.length + 4 ∧ body.length + 4 < 256 ^ 4 then .ok ⟨body,h.2⟩
        else .error .desObject
    else .error .desObject

def getField (s : Bytes) : Option ((Blob 8 × Blob 8) × Bytes) := do
  let (field,s) ← getBlob 8 s
  let (val,s) ← getBlob 8 s
  pure ((field,val),s)

def desHashHt (s : Bytes) : Except Fault Robj :=
  match takeLe 8 s with
  | none => .error .desObject
  | some (count,s) =>
    match getMany getField s.length s with
    | none => .error .desObject
    | some fields =>
      if h : (fields.map Prod.fst).Nodup ∧ fields.length = count ∧ count < 256 ^ 8 then
        .ok ⟨.hashHt ⟨fields,h.1,by omega⟩,lru,1⟩
      else .error .desObject

def getNode (s : Bytes) : Option (ZskiplistNode × Bytes) := do
  let (ele,s) ← getBlob 8 s
  let (score,s) ← takeLe 8 s
  if h : isnan (BitVec.ofNat 64 score) = false then pure (⟨BitVec.ofNat 64 score,ele,h⟩,s)
  else none

def desZskiplist (s : Bytes) : Except Fault Robj :=
  match takeLe 8 s with
  | none => .error .desObject
  | some (zsetLen,s) =>
    match getTimes getNode zsetLen s with
    | none => .error .desObject
    | some (nodes,rest) =>
      if h : rest = [] ∧ nodes.length < 256 ^ 8 then
        .ok ⟨.zsetSkiplist ⟨nodes.foldl zslInsert [],
          foldl_zslInsert_sorted nodes [] List.Pairwise.nil,by
            rw [foldl_zslInsert_length]
            simpa using h.2⟩,lru,1⟩
      else .error .desObject

end

/-- The switch of `desObject` on the type byte. -/
def desBody (cfg : Config) (rockType : UInt8) (lru : BitVec 24) (s : Bytes) : Except Fault Robj :=
  if rockType = ROCK_TYPE_STRING then desString cfg lru s
  else if rockType = ROCK_TYPE_LIST_QUICKLIST then desList lru s
  else if rockType = ROCK_TYPE_SET_HT then desSetHt lru s
  else if rockType = ROCK_TYPE_SET_INTSET then desIntset lru s
  else if rockType = ROCK_TYPE_HASH_HT then desHashHt lru s
  else if rockType = ROCK_TYPE_HASH_ZIPLIST then
    (desZiplist s).map fun zl => ⟨.hashZiplist zl,lru,1⟩
  else if rockType = ROCK_TYPE_ZSET_ZIPLIST then
    (desZiplist s).map fun zl => ⟨.zsetZiplist zl,lru,1⟩
  else if rockType = ROCK_TYPE_ZSET_SKIPLIST then desZskiplist lru s
  else .error .desObject

def desObject (cfg : Config) (buf : Bytes) : Except Fault Robj :=
  match buf with
  | [] => .error .desObject
  | rockType :: rest =>
    match takeLe 4 rest with
    | none => .error .desObject
    | some (lru,s) => desBody cfg rockType (BitVec.ofNat 24 lru) s

section
variable (lru : BitVec 24)

lemma desList_serList (l : List (Blob 4)) :
    desList lru (serList l) = .ok ⟨.quicklist l,lru,1⟩ := by
  have hne : ∀ a : Blob 4, putBlob a ≠ [] := putBlob_ne_nil (by omega)
  have hl := length_le_flatMap hne l
  rw [desList,serList,getMany_flatMap hne getBlob_putBlob l _ hl]
  rfl

lemma desIntset_serIntset (is : Intset) :
    desIntset lru (serIntset is) = .ok ⟨.intset is,lru,1⟩ := by
  have he : (serIntset is).take 4 = leBytes 4 is.encoding := by
    rw [serIntset,append_assoc,take_left' (leBytes_length 4 _)]
  have hd : (serIntset is).drop 4 = leBytes 4 is.length ++ is.contents := by
    rw [serIntset,append_assoc,drop_left' (leBytes_length 4 _)]
  have hl : ((serIntset is).drop 4).take 4 = leBytes 4 is.length := by
    rw [hd,take_left' (leBytes_length 4 _)]
  have hc : (serIntset is).drop 8 = is.contents := by
    rw [show 8 = 4 + 4 from rfl,← drop_drop,hd,drop_left' (leBytes_length 4 _)]
  have h8 : 8 ≤ (serIntset is).length := by
    simp only [serIntset,length_append,leBytes_length]
    omega
  simp only [desIntset,dif_pos h8,he,hl,hc,leNat_leBytes 4 _ is.encoding_lt,
    leNat_leBytes 4 _ is.length_lt,dif_pos is.size]

lemma desSetHt_serSetHt (s : SetHt) : desSetHt lru (serSetHt s) = .ok ⟨.setHt s,lru,1⟩ := by
  have hne : ∀ a : Blob 8, putBlob a ≠ [] := putBlob_ne_nil (by omega)
  have hl := length_le_flatMap hne s.elems
  have hm := getMany_flatMap hne getBlob_putBlob s.elems _ hl
  have hd : s.elems.dedup = s.elems := dedup_eq_self.mpr s.nodup
  simp only [desSetHt,serSetHt,takeLe_leBytes 8 _ s.count_lt,hm]
  rw [dif_pos ⟨trivial,s.count_lt⟩]
  simp [hd]

lemma desZiplist_serZiplist (zl : Ziplist) : desZiplist (serZiplist zl) = .ok zl := by
  have h8 : zl.blobLen < 256 ^ 8 := by
    have hs := zl.small
    simp only [Ziplist.blobLen]
    omega
  have hb : zl.blob.length = zl.blobLen := by
    simp [Ziplist.blob,Ziplist.blobLen,add_comm]
  have h4 : takeLe 4 zl.blob = some (zl.blobLen,zl.body) := takeLe_leBytes 4 _ zl.small _
  have hs := zl.small
  simp only [desZiplist,serZiplist,takeLe_leBytes 8 _ h8,hb,if_true,h4]
  simp only [Ziplist.blobLen,true_and,dif_pos hs]

lemma getField_putField (f : Blob 8 × Blob 8) (rest : Bytes) :
    getField (putField f ++ rest) = some (f,rest) := by
  simp [getField,putField,append_assoc,getBlob_putBlob]

lemma putField_ne_nil (f : Blob 8 × Blob 8) : putField f ≠ [] := by
  intro h
  exact putBlob_ne_nil (by omega) f.1 (append_eq_nil_iff.mp h).1

lemma desHashHt_serHashHt (h : HashHt) : desHashHt lru (serHashHt h) = .ok ⟨.hashHt h,lru,1⟩ := by
  have hl := length_le_flatMap putField_ne_nil h.fields
  have hm := getMany_flatMap putField_ne_nil getField_putField h.fields _ hl
  simp only [desHashHt,serHashHt,takeLe_leBytes 8 _ h.count_lt,hm]
  rw [dif_pos ⟨h.nodup,trivial,h.count_lt⟩]

lemma getNode_putNode (x : ZskiplistNode) (rest : Bytes) :
    getNode (putNode x ++ rest) = some (x,rest) := by
  have hs : takeLe 8 (leBytes 8 x.score.toNat ++ rest) = some (x.score.toNat,rest) :=
    takeLe_leBytes 8 _ (by have hx := x.score.isLt; omega) rest
  simp [getNode,putNode,append_assoc,getBlob_putBlob,hs,x.number]

lemma desZskiplist_serZskiplist (z : Zskiplist) :
    desZskiplist lru (serZskiplist z) = .ok ⟨.zsetSkiplist z,lru,1⟩ := by
  have ht := getTimes_flatMap getNode_putNode z.nodes.reverse []
  rw [List.append_nil,length_reverse] at ht
  have hr : z.nodes.reverse.length < 256 ^ 8 := by
    rw [length_reverse]
    exact z.length_lt
  simp only [desZskiplist,serZskiplist,takeLe_leBytes 8 _ z.length_lt,ht]
  rw [dif_pos ⟨trivial,hr⟩]
  simp [foldl_zslInsert_reverse z.nodes z.sorted]

end

lemma desBody_serContent (cfg : Config) (lru : BitVec 24) {c : Content} {t : UInt8}
    (h : serObjectType c = .ok t) :
    desBody cfg t lru (serContent c) =
      .ok ⟨c,lru,if isSharedInteger cfg c then OBJ_SHARED_REFCOUNT else 1⟩ := by
  cases c with
  | int v =>
    obtain rfl := Except.ok.inj h
    have hv : leNat (leBytes 8 v.toNat) = v.toNat := leNat_leBytes 8 _ (by have hx := v.isLt; omega)
    simp [desBody,serContent,desString,hv,longLongForValue_eq]
  | raw s =>
    obtain rfl := Except.ok.inj h
    simp [desBody,serContent,desString,OBJ_ENCODING_RAW,OBJ_ENCODING_INT,isSharedInteger]
  | embstr s =>
    obtain rfl := Except.ok.inj h
    simp [desBody,serContent,desString,OBJ_ENCODING_RAW,OBJ_ENCODING_INT,OBJ_ENCODING_EMBSTR,
      isSharedInteger,s.property]
  | quicklist l =>
    obtain rfl := Except.ok.inj h
    simp +decide [desBody,serContent,desList_serList lru l,isSharedInteger]
  | intset is =>
    obtain rfl := Except.ok.inj h
    simp +decide [desBody,serContent,desIntset_serIntset lru is,isSharedInteger]
  | setHt s =>
    obtain rfl := Except.ok.inj h
    simp +decide [desBody,serContent,desSetHt_serSetHt lru s,isSharedInteger]
  | hashZiplist zl | zsetZiplist zl =>
    obtain rfl := Except.ok.inj h
    simp +decide [desBody,serContent,desZiplist_serZiplist zl,Except.map,isSharedInteger]
  | hashHt m =>
    obtain rfl := Except.ok.inj h
    simp +decide [desBody,serContent,desHashHt_serHashHt lru m,isSharedInteger]
  | zsetSkiplist z =>
    obtain rfl := Except.ok.inj h
    simp +decide [desBody,serContent,desZskiplist_serZskiplist lru z,isSharedInteger]
  | stream | module => cases h

/-- Reading back what `serObject` wrote succeeds and gives the same contents and
the same 24 lru bits, in a fresh object unless the integer is a shared one. -/
theorem desObject_serObject (cfg : Config) {o : Robj} {buf : Bytes} (h : serObject o = .ok buf) :
    desObject cfg buf = .ok ⟨o.content,o.lru,
      if isSharedInteger cfg o.content then OBJ_SHARED_REFCOUNT else 1⟩ := by
  obtain ⟨t,ht,hb⟩ := bind_ok.mp h
  obtain rfl := Except.ok.inj hb
  have hl : o.lru.toNat < 256 ^ 4 := by
    have hx := o.lru.isLt
    omega
  simp only [desObject,takeLe_leBytes 4 _ hl,BitVec.ofNat_toNat,BitVec.setWidth_eq]
  exact desBody_serContent cfg o.lru ht

end RedRock
