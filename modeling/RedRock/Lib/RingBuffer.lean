import Mathlib

/-!
Circular buffers. A buffer is written piece by piece, where a piece ends at the last cell
at the latest, and it holds the most recent items of what was ever written to it.
-/

namespace RedRock.Lib
open List Option Nat

/-- The cells, empty until they are written, and the one that is written next. -/
structure RingBuffer (α : Type) where
  cells : List (Option α)
  idx : Nat
  idx_lt : idx < cells.length
  deriving DecidableEq

namespace RingBuffer
variable {α : Type}
variable {r : RingBuffer α} {h : List α} {p : List α} {i j : Nat}

def empty (n : Nat) (hn : 0 < n) : RingBuffer α := ⟨List.replicate n none,0,by simpa using hn⟩

def size (r : RingBuffer α) : Nat := r.cells.length

section
variable (r)

lemma size_pos : 0 < r.size := zero_lt_of_lt r.idx_lt

@[simp] lemma empty_size (n : Nat) (hn : 0 < n) : (empty n hn : RingBuffer α).size = n := by
  simp [size,empty]

/-- The cell at a position, counted round the buffer. -/
def get (r : RingBuffer α) (i : Nat) : Option α := r.cells[i % r.size]?.join

lemma get_congr (h : i % r.size = j % r.size) : r.get i = r.get j := by
  rw [get,h,get]

/-- The position after `i`, which is at most the end. -/
def wrap (n i : Nat) : Nat := if i = n then 0 else i

lemma wrap_lt {n i : Nat} (hn : 0 < n) (hi : i ≤ n) : wrap n i < n := by
  unfold wrap
  split
  · exact hn
  · omega

lemma wrap_mod {n i : Nat} (hi : i ≤ n) : wrap n i = i % n := by
  unfold wrap
  split
  · rename_i h
    rw [h,mod_self]
  · rw [mod_eq_of_lt (by omega)]

def put (r : RingBuffer α) (a : α) : RingBuffer α :=
  ⟨r.cells.set r.idx (some a),wrap r.size (r.idx + 1),by
    rw [length_set]
    exact wrap_lt r.size_pos r.idx_lt⟩

@[simp] lemma put_size (a : α) : (r.put a).size = r.size := by
  simp [size,put]

@[simp] lemma foldl_put_size (p : List α) (r : RingBuffer α) : (p.foldl put r).size = r.size := by
  induction p generalizing r with
  | nil => rfl
  | cons a p ih => rw [foldl_cons,ih,put_size]

def room (r : RingBuffer α) (p : List α) : Nat := min (r.size - r.idx) p.length

lemma room_pos (hp : p ≠ []) : 0 < r.room p := by
  have hl := length_pos_iff.mpr hp
  have hi := r.idx_lt
  simp only [room,size]
  omega

lemma room_le (p : List α) : r.idx + r.room p ≤ r.size := by
  have hi := r.idx_lt
  simp only [room,size]
  omega

/-- One piece: what fits before the end is copied over the cells there. -/
def copy (r : RingBuffer α) (p : List α) : RingBuffer α :=
  ⟨r.cells.take r.idx ++ (p.take (r.room p)).map some ++ r.cells.drop (r.idx + r.room p),
    wrap r.size (r.idx + r.room p),by
      have hw := wrap_lt r.size_pos (r.room_le p)
      have hr := r.room_le p
      have hp : r.room p ≤ p.length := min_le_right ..
      simp only [length_append,length_take,length_map,length_drop]
      simp only [size] at hw hr ⊢
      omega⟩

lemma foldl_put_cells (p : List α) (r : RingBuffer α) (h : r.idx + p.length ≤ r.size) (i : Nat) :
    (p.foldl put r).cells[i]? =
      if r.idx ≤ i ∧ i < r.idx + p.length then some p[i - r.idx]? else r.cells[i]? := by
  induction p generalizing r with
  | nil =>
    rw [length_nil,add_zero,if_neg (by omega)]
    rfl
  | cons a p ih =>
    rw [length_cons] at h ⊢
    have hput : (r.put a).cells[i]? = if i = r.idx then some (some a) else r.cells[i]? := by
      have hi := r.idx_lt
      simp only [put,getElem?_set]
      grind
    by_cases hp : p = []
    · subst hp
      rw [foldl_cons,foldl_nil,hput]
      grind
    have hl := length_pos_iff.mpr hp
    have hidx : (r.put a).idx = r.idx + 1 := by
      simp only [put,wrap]
      rw [if_neg (by omega)]
    rw [foldl_cons,ih (r.put a) (by rw [hidx,put_size]; omega),hidx,hput]
    grind

lemma foldl_put_idx (p : List α) (r : RingBuffer α) (hp : p ≠ [])
    (h : r.idx + p.length ≤ r.size) : (p.foldl put r).idx = wrap r.size (r.idx + p.length) := by
  induction p generalizing r with
  | nil => exact absurd rfl hp
  | cons a p ih =>
    rw [length_cons] at h ⊢
    by_cases hp' : p = []
    · subst hp'
      rfl
    have hl := length_pos_iff.mpr hp'
    have hidx : (r.put a).idx = r.idx + 1 := by
      simp only [put,wrap]
      rw [if_neg (by omega)]
    rw [foldl_cons,ih (r.put a) hp' (by rw [hidx,put_size]; omega),hidx,put_size]
    congr 1
    omega

lemma ext {r s : RingBuffer α} (hc : ∀ i : Nat, r.cells[i]? = s.cells[i]?)
    (hi : r.idx = s.idx) : r = s := by
  obtain ⟨cells,idx,hlt⟩ := r
  obtain ⟨cells',idx',hlt'⟩ := s
  obtain rfl : cells = cells' := ext_getElem? hc
  obtain rfl : idx = idx' := hi
  rfl

lemma copy_eq_foldl (hp : p ≠ []) : r.copy p = (p.take (r.room p)).foldl put r := by
  have hle : r.room p ≤ p.length := min_le_right ..
  have hlen : (p.take (r.room p)).length = r.room p := by rw [length_take,min_eq_left hle]
  have hroom := r.room_le p
  have hne : p.take (r.room p) ≠ [] := by
    have hpos := r.room_pos hp
    rw [← length_pos_iff,hlen]
    exact hpos
  apply ext
  · intro i
    rw [foldl_put_cells _ r (by rw [hlen]; exact hroom),hlen]
    have hi := r.idx_lt
    simp only [size] at hroom
    simp only [copy,getElem?_append,length_append,length_take,length_map,
      getElem?_take,getElem?_drop,getElem?_map]
    grind
  · rw [foldl_put_idx _ r hne (by rw [hlen]; exact hroom),hlen,copy]

/-- The buffer holds the end of `h`: the item `k` before the write position is the
item `k` before the end, as far back as the buffer goes. -/
def Holds (r : RingBuffer α) (h : List α) : Prop :=
  ∀ k, 1 ≤ k → k ≤ r.size → k ≤ h.length → r.get (r.idx + r.size - k) = h[h.length - k]?

lemma holds_nil : r.Holds [] := by
  intro k h1 _ h0
  simp only [length_nil] at h0
  omega

lemma get_put (a : α) (i : Nat) :
    (r.put a).get i = if i % r.size = r.idx then some a else r.get i := by
  have hi := r.idx_lt
  simp only [get,put_size]
  simp only [put,getElem?_set]
  grind

end

lemma Holds.put (hh : r.Holds h) (a : α) : (r.put a).Holds (h ++ [a]) := by
  intro k h1 hk hlen
  have hi : r.idx < r.size := r.idx_lt
  have hidx : (r.put a).idx = (r.idx + 1) % r.size := wrap_mod r.idx_lt
  rw [put_size] at hk ⊢
  -- seen from the old write position, the cell is one nearer
  have hpos : ((r.put a).idx + r.size - k) % r.size = (r.idx + r.size - (k - 1)) % r.size := by
    rw [hidx]
    rcases lt_or_ge (r.idx + 1) r.size with hlt | hge
    · rw [mod_eq_of_lt hlt]
      congr 1
      omega
    have he : r.idx + 1 = r.size := by omega
    rw [he,mod_self,zero_add,
      show r.idx + r.size - (k - 1) = (r.size - k) + r.size by omega,add_mod_right]
  rw [get_put,hpos]
  rcases lt_or_ge 1 k with hgt | hle
  · have hne : (r.idx + r.size - (k - 1)) % r.size ≠ r.idx := by
      rcases lt_or_ge r.idx (k - 1) with hlt | hge
      · rw [mod_eq_of_lt (by omega)]
        omega
      rw [show r.idx + r.size - (k - 1) = (r.idx - (k - 1)) + r.size by omega,
        add_mod_right,mod_eq_of_lt (by omega)]
      omega
    rw [length_append,length_singleton] at hlen ⊢
    have hlast : (h ++ [a])[h.length + 1 - k]? = h[h.length - (k - 1)]? := by
      rw [getElem?_append_left (by omega)]
      congr 1
      omega
    rw [if_neg hne,hlast,← hh (k - 1) (by omega) (by omega) (by omega)]
    exact r.get_congr hpos
  obtain rfl : k = 1 := by omega
  rw [if_pos (by rw [Nat.sub_self,Nat.sub_zero,add_mod_right,mod_eq_of_lt hi])]
  simp

lemma Holds.foldl_put (p : List α) (hh : r.Holds h) :
    (p.foldl RingBuffer.put r).Holds (h ++ p) := by
  induction p generalizing r h with
  | nil => simpa using hh
  | cons a p ih =>
    have ha := ih (hh.put a)
    rwa [append_assoc] at ha

/-- `n` cells from position `j` on, counted round the buffer. -/
def window (r : RingBuffer α) (j n : Nat) : List (Option α) :=
  (List.range n).map fun i => r.get (j + i)

lemma Holds.window (hh : r.Holds h) {n : Nat} (hn : n ≤ r.size) (hl : n ≤ h.length) :
    r.window (r.idx + r.size - n) n = (h.drop (h.length - n)).map some := by
  apply ext_getElem?
  intro i
  simp only [RingBuffer.window,getElem?_map,getElem?_drop]
  rcases lt_or_ge i n with hi | hi
  · have hk := hh (n - i) (by omega) (by omega) (by omega)
    rw [getElem?_range hi,map_some,
      show r.idx + r.size - n + i = r.idx + r.size - (n - i) by omega,hk,
      show h.length - n + i = h.length - (n - i) by omega]
    rw [getElem?_eq_getElem (by omega),map_some]
  rw [getElem?_eq_none (by simpa using hi),getElem?_eq_none (by omega)]
  rfl

section
variable (r)

lemma window_piece {j n : Nat} (h : j + n ≤ r.size) : (r.cells.drop j).take n = r.window j n := by
  apply ext_getElem?
  intro i
  simp only [window,getElem?_map,getElem?_take,getElem?_drop]
  rcases lt_or_ge i n with hi | hi
  · have hlt : j + i < r.cells.length := by
      simp only [size] at h
      omega
    rw [if_pos hi,getElem?_range hi,map_some,get,
      mod_eq_of_lt (by simpa [size] using hlt),getElem?_eq_getElem hlt]
    rfl
  rw [if_neg (by omega),getElem?_eq_none (by simpa using hi)]
  rfl

lemma window_append (j m n : Nat) : r.window j m ++ r.window (j + m) n = r.window j (m + n) := by
  simp only [window,range_add,map_append,List.map_map,Function.comp_def,add_assoc]

lemma window_congr (n : Nat) (h : i % r.size = j % r.size) : r.window i n = r.window j n := by
  refine map_congr_left fun k _ => r.get_congr ?_
  rw [add_mod,h,← add_mod]

end

end RingBuffer
end RedRock.Lib
