import Mathlib.Tactic

/-!
# Files and names

A directory leads from names to files, and a file keeps its number when it is renamed or
removed, so a handle goes on writing to it. Every operation is one step; a crash can only
come between two of them.
-/

namespace Patchli

structure File where
  data : List UInt8
  mode : ℕ
  deriving DecidableEq

/-- No file has two names, and the next file's number is not in use. -/
structure Files (N : Type*) where
  entries : N → Option ℕ
  file : ℕ → File
  fresh : ℕ
  lt_fresh : ∀ {n i}, entries n = some i → i < fresh
  injective : ∀ {m n i}, entries m = some i → entries n = some i → m = n

namespace Files

/-- The data after `bytes` were written at an offset; a gap is filled with zeros. -/
def splice (off : ℕ) (bytes data : List UInt8) : List UInt8 :=
  data.take off ++ List.replicate (off - data.length) 0 ++ bytes ++ data.drop (off + bytes.length)

/-- A file that was written up to `off` is written up to `off + n` by the next bytes. -/
theorem splice_take {d : List UInt8} {off : ℕ} (hoff : off ≤ d.length) (n : ℕ) :
    splice off ((d.drop off).take n) (d.take off) = d.take (off + n) := by
  have hlength : (d.take off).length = off := List.length_take_of_le hoff
  have htail : (d.take off).drop (off + ((d.drop off).take n).length) = [] := by
    apply List.drop_eq_nil_of_le
    rw [hlength]
    exact Nat.le_add_right ..
  rw [splice, List.take_of_length_le hlength.le, hlength, Nat.sub_self, List.replicate_zero,
    List.append_nil, htail, List.append_nil, ← List.take_add]

theorem splice_length (bytes data : List UInt8) :
    splice data.length bytes data = data ++ bytes := by
  simp [splice]

section

variable {N : Type*} [DecidableEq N]

def empty : Files N := ⟨fun _ => none, fun _ => ⟨[], 0⟩, 0, nofun, nofun⟩

def lookup (s : Files N) (n : N) : Option File := (s.entries n).map s.file

def create (s : Files N) (n : N) (mode : ℕ) : Files N where
  entries := Function.update s.entries n (some s.fresh)
  file := Function.update s.file s.fresh ⟨[], mode⟩
  fresh := s.fresh + 1
  lt_fresh {m i} h := by
    by_cases hm : m = n
    · rw [hm, Function.update_self] at h
      cases h
      exact Nat.lt_succ_self _
    · rw [Function.update_of_ne hm] at h
      exact Nat.lt_succ_of_lt (s.lt_fresh h)
  injective {m m' i} h h' := by
    by_cases hm : m = n
    · by_cases hm' : m' = n
      · rw [hm, hm']
      · rw [hm, Function.update_self] at h
        rw [Function.update_of_ne hm', ← h] at h'
        exact absurd (s.lt_fresh h') (lt_irrefl _)
    · by_cases hm' : m' = n
      · rw [hm', Function.update_self] at h'
        rw [Function.update_of_ne hm, ← h'] at h
        exact absurd (s.lt_fresh h) (lt_irrefl _)
      · rw [Function.update_of_ne hm] at h
        rw [Function.update_of_ne hm'] at h'
        exact s.injective h h'

def modify (s : Files N) (i : ℕ) (f : File → File) : Files N where
  entries := s.entries
  file := Function.update s.file i (f (s.file i))
  fresh := s.fresh
  lt_fresh := s.lt_fresh
  injective := s.injective

def write (s : Files N) (i off : ℕ) (bytes : List UInt8) : Files N :=
  s.modify i fun f => { f with data := splice off bytes f.data }

def truncate (s : Files N) (i : ℕ) : Files N := s.modify i fun f => { f with data := [] }

def remove (s : Files N) (n : N) : Files N where
  entries := Function.update s.entries n none
  file := s.file
  fresh := s.fresh
  lt_fresh {m i} h := by
    by_cases hm : m = n
    · rw [hm, Function.update_self] at h
      cases h
    · rw [Function.update_of_ne hm] at h
      exact s.lt_fresh h
  injective {m m' i} h h' := by
    by_cases hm : m = n
    · rw [hm, Function.update_self] at h
      cases h
    · by_cases hm' : m' = n
      · rw [hm', Function.update_self] at h'
        cases h'
      · rw [Function.update_of_ne hm] at h
        rw [Function.update_of_ne hm'] at h'
        exact s.injective h h'

/-- Move what `a` leads to under the name `b`; what `b` led to loses its name. -/
def move (s : Files N) (a b : N) : Files N where
  entries := fun n => if n = b then s.entries a else if n = a then none else s.entries n
  file := s.file
  fresh := s.fresh
  lt_fresh {m i} h := by
    split_ifs at h
    · exact s.lt_fresh h
    · exact s.lt_fresh h
  injective {m m' i} h h' := by
    split_ifs at h h' with hm hm' ha ha' hb
    · rw [hm, hm']
    · exact absurd (s.injective h h') (Ne.symm ha)
    · exact absurd (s.injective h h') ha'
    · exact s.injective h h'

/-- `rename(a, b)`, which fails when there is no `a`. -/
def rename (s : Files N) (a b : N) : Option (Files N) :=
  if s.entries a = none then none else if a = b then some s else some (s.move a b)

/-- Open a file for writing: create it or take away what it holds. The handle is its number. -/
def openTruncate (s : Files N) (n : N) (mode : ℕ) : ℕ × Files N :=
  match s.entries n with
  | some i => (i, s.truncate i)
  | none => (s.fresh, s.create n mode)

variable (s : Files N) (m n : N) (i j mode : ℕ) (f : File → File)

@[simp] theorem entries_create :
    (s.create n mode).entries = Function.update s.entries n (some s.fresh) := rfl

@[simp] theorem file_create :
    (s.create n mode).file = Function.update s.file s.fresh ⟨[], mode⟩ := rfl

@[simp] theorem fresh_create : (s.create n mode).fresh = s.fresh + 1 := rfl

omit [DecidableEq N] in
@[simp] theorem entries_modify : (s.modify i f).entries = s.entries := rfl

omit [DecidableEq N] in
@[simp] theorem file_modify :
    (s.modify i f).file = Function.update s.file i (f (s.file i)) := rfl

omit [DecidableEq N] in
@[simp] theorem fresh_modify : (s.modify i f).fresh = s.fresh := rfl

@[simp] theorem entries_remove : (s.remove n).entries = Function.update s.entries n none := rfl

@[simp] theorem file_remove : (s.remove n).file = s.file := rfl

@[simp] theorem fresh_remove : (s.remove n).fresh = s.fresh := rfl

theorem entries_move :
    (s.move m n).entries = Function.update (Function.update s.entries m none) n (s.entries m) := by
  funext k
  simp only [move, Function.update_apply]

@[simp] theorem file_move : (s.move m n).file = s.file := rfl

@[simp] theorem fresh_move : (s.move m n).fresh = s.fresh := rfl

/-! What a name leads to after an operation -/

variable {s m n i}

theorem lookup_create_of_ne (h : m ≠ n) : (s.create n mode).lookup m = s.lookup m := by
  simp only [lookup, entries_create, file_create, Function.update_of_ne h]
  refine Option.map_congr fun j hj => ?_
  exact Function.update_of_ne (s.lt_fresh hj).ne ..

omit [DecidableEq N] in
theorem lookup_modify_self (hi : s.entries n = some i) :
    (s.modify i f).lookup n = some (f (s.file i)) := by
  simp [lookup, hi]

omit [DecidableEq N] in
theorem lookup_modify_of_ne (hi : s.entries n = some i) (h : m ≠ n) :
    (s.modify i f).lookup m = s.lookup m := by
  simp only [lookup, entries_modify, file_modify]
  refine Option.map_congr fun j hj => ?_
  have hij : j ≠ i := by
    rintro rfl
    exact h (s.injective hj hi)
  exact Function.update_of_ne hij ..

theorem lookup_remove_of_ne (h : m ≠ n) : (s.remove n).lookup m = s.lookup m := by
  simp [lookup, h]

/-- A rename moves the file as it is, and other names do not notice. -/
theorem lookup_rename {t : Files N} (hmn : m ≠ n) (h : s.rename m n = some t) :
    t.lookup n = s.lookup m ∧ t.lookup m = none ∧
      ∀ k, k ≠ m → k ≠ n → t.lookup k = s.lookup k := by
  unfold rename at h
  split_ifs at h with hm
  cases h
  refine ⟨by simp [lookup, move], by simp [lookup, move, hmn], fun k hkm hkn => ?_⟩
  simp [lookup, move, hkm, hkn]

end

end Files
end Patchli
