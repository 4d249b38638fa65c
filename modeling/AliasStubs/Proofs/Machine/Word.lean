import AliasStubs.Proofs.Bytes
import AliasStubs.Proofs.Sequences

/-!
# Machine arithmetic

The readers compute with natural numbers, and slices outside the data are cut short. A machine has
words of fixed width instead, and it stops where a number leaves its word, or an index or a range
leaves its data: with a **fault**. A fault is no failure of reading. It is an error of the reader
itself, and data that are read must never cause one.

So the readers are written a second time, operation by operation as a machine carries them out, and
each of them is shown to come to exactly what the reader over natural numbers comes to. Such a
reader has no fault to give, so the machine has none either.

## Main definitions

* `Machine.Stop` : why a machine stops; `Machine.Checked` a computation that may stop.
* `Machine.Word` : the widths of words, with their operations.
* `Machine.index`, `Machine.store`, `Machine.slice`, `Machine.fill` : access to what has a size.
* `Machine.lift` and `Machine.liftReader` : computations that only ever fail by their data.
* `Machine.Settles` : a computation ends with a result or fails by its data.

## Main results

* `Machine.bind_eq_lift_bind`, `Machine.lift_bind`, `Machine.liftReader_bind` : sequences of such
  computations are such.
-/

namespace AliasStubs.Machine

/-- Why a machine stops. -/
inductive Stop
  /-- A number left the range of its word, or an index or a range its data. -/
  | fault
  /-- The nested calls, or the rounds of a loop, that were granted are used up. -/
  | exhausted
  /-- The data cannot be read. -/
  | failure (cause : Failure)
  deriving DecidableEq, Repr

/-- A computation on a machine. -/
abbrev Checked := Except Stop

/-- A computation on a machine that changes a state. -/
abbrev Stateful (σ : Type) := EStateM Stop σ

/-- A computation without a state can be part of one with a state. -/
instance {σ : Type} : MonadLift Checked (Stateful σ) where
  monadLift x := match x with
    | .ok a => pure a
    | .error stop => throw stop

namespace Stateful

variable {σ α β : Type}

/-- The result of a computation from a state on. -/
def startingAt (r : Stateful σ α) (s : σ) : Checked α :=
  match r s with
  | .ok a _ => .ok a
  | .error stop _ => .error stop

@[simp] theorem get_bind_apply (f : σ → Stateful σ β) (s : σ) : (get >>= f) s = f s s := rfl

@[simp] theorem set_bind_apply (s' : σ) (f : PUnit → Stateful σ β) (s : σ) :
    (set s' >>= f) s = f () s' := rfl

@[simp] theorem throw_bind (stop : Stop) (f : α → Stateful σ β) :
    ((throw stop : Stateful σ α) >>= f) = throw stop := rfl

/-- A sequence goes on where its first part has stopped. -/
theorem bind_of_eq_ok {r : Stateful σ α} {s s' : σ} {a : α} (h : r s = .ok a s')
    (f : α → Stateful σ β) : (r >>= f) s = f a s' := by
  change EStateM.bind r f s = _
  rw [EStateM.bind, h]

/-- A sequence stops where its first part stops. -/
theorem bind_of_eq_error {r : Stateful σ α} {s s' : σ} {stop : Stop} (h : r s = .error stop s')
    (f : α → Stateful σ β) : (r >>= f) s = .error stop s' := by
  change EStateM.bind r f s = _
  rw [EStateM.bind, h]

@[simp] theorem liftM_ok (a : α) : (liftM (.ok a : Checked α) : Stateful σ α) = pure a := rfl

end Stateful

/-! ### Words -/

/-- The widths of words. -/
inductive Word
  | byte
  | word32
  | word64

namespace Word

/-- The number of bits of a word. -/
def bits : Word → Nat
  | byte => 8
  | word32 => 32
  | word64 => 64

/-- The least number that does not fit into a word. -/
def bound (w : Word) : Nat :=
  1 <<< w.bits

/-- The sum of two numbers, if it fits into the word. -/
def add? (w : Word) (a b : Nat) : Option Nat :=
  if a + b < w.bound then some (a + b) else none

/-- The sum of two numbers, which has to fit into the word. -/
def add (w : Word) (a b : Nat) : Checked Nat :=
  if a + b < w.bound then .ok (a + b) else .error .fault

/-- The product of two numbers, which has to fit into the word. -/
def mul (w : Word) (a b : Nat) : Checked Nat :=
  if a * b < w.bound then .ok (a * b) else .error .fault

/-- A number moved to the left by fewer bits than the word has. Bits that leave the word are
lost. -/
def shiftLeft (w : Word) (a count : Nat) : Checked Nat :=
  if count < w.bits then .ok (a <<< count % w.bound) else .error .fault

/-- A number moved to the right by fewer bits than the word has. -/
def shiftRight (w : Word) (a count : Nat) : Checked Nat :=
  if count < w.bits then .ok (a >>> count) else .error .fault

end Word

/-- The difference of two numbers, of which the first must not be the lesser one. -/
def sub (a b : Nat) : Checked Nat :=
  if b ≤ a then .ok (a - b) else .error .fault

section Words

variable {w : Word} {a b : Nat}

theorem Word.bound_byte : Word.byte.bound = 0x100 := rfl

theorem Word.bound_word32 : Word.word32.bound = 0x100000000 := rfl

theorem Word.bound_word64 : Word.word64.bound = 2 * 1 <<< 63 := rfl

theorem Word.add?_of_lt (h : a + b < w.bound) : w.add? a b = some (a + b) :=
  if_pos h

theorem Word.add?_of_le (h : w.bound ≤ a + b) : w.add? a b = none :=
  if_neg (Nat.not_lt.mpr h)

theorem Word.add_of_lt (h : a + b < w.bound) : w.add a b = .ok (a + b) :=
  if_pos h

theorem Word.add_word64 (h : a + b < 2 * 1 <<< 63) : Word.word64.add a b = .ok (a + b) :=
  add_of_lt h

theorem Word.mul_of_lt (h : a * b < w.bound) : w.mul a b = .ok (a * b) :=
  if_pos h

theorem Word.shiftLeft_of_lt (h : b < w.bits) (hfits : a <<< b < w.bound) :
    w.shiftLeft a b = .ok (a <<< b) := by
  rw [Word.shiftLeft, if_pos h, Nat.mod_eq_of_lt hfits]

theorem Word.shiftRight_of_lt (h : b < w.bits) : w.shiftRight a b = .ok (a >>> b) :=
  if_pos h

theorem sub_of_le (h : b ≤ a) : sub a b = .ok (a - b) :=
  if_pos h

example : Word.byte.add 200 50 = .ok 250 ∧ Word.byte.add 200 56 = .error .fault := ⟨rfl, rfl⟩

end Words

/-! ### Indexes and ranges -/

section Access

variable {α : Type}

/-- The element at an index, which has to exist. -/
def index (xs : Array α) (i : Nat) : Checked α :=
  match xs[i]? with
  | some a => .ok a
  | none => .error .fault

/-- An array with a new element at an index, which has to exist. -/
def store (xs : Array α) (i : Nat) (a : α) : Checked (Array α) :=
  if i < xs.size then .ok (xs.setIfInBounds i a) else .error .fault

/-- An array with the same new element at every index of a range, which has to lie inside. -/
def fill (xs : Array α) (first stop : Nat) (a : α) : Checked (Array α) :=
  if first ≤ stop ∧ stop ≤ xs.size then
    .ok ((List.range' first (stop - first)).foldl (fun xs i => xs.setIfInBounds i a) xs)
  else
    .error .fault

/-- The elements of a range, which has to lie inside. -/
def range (xs : Array α) (first stop : Nat) : Checked (List α) :=
  if first ≤ stop ∧ stop ≤ xs.size then .ok (xs.extract first stop).toList else .error .fault

/-- The byte at an offset, which has to exist. -/
def byteAt (data : ByteArray) (i : Nat) : Checked UInt8 :=
  if i < data.size then .ok (Bytes.byteAt data i) else .error .fault

/-- The bytes of a range, which has to lie inside. -/
def slice (data : ByteArray) (start stop : Nat) : Checked ByteArray :=
  if start ≤ stop ∧ stop ≤ data.size then .ok (data.extract start stop) else .error .fault

/-- The bytes from an offset on, which must not lie behind the end. -/
def sliceFrom (data : ByteArray) (start : Nat) : Checked ByteArray :=
  slice data start data.size

variable {xs : Array α} {data : ByteArray} {i first stop : Nat} {a : α}

theorem index_of_getElem? (h : xs[i]? = some a) : index xs i = .ok a := by
  rw [index, h]

theorem store_of_lt (h : i < xs.size) : store xs i a = .ok (xs.setIfInBounds i a) :=
  if_pos h

theorem range_of_le (h : first ≤ stop) (h' : stop ≤ xs.size) :
    range xs first stop = .ok (xs.extract first stop).toList :=
  if_pos ⟨h, h'⟩

theorem byteAt_of_lt (h : i < data.size) : byteAt data i = .ok (Bytes.byteAt data i) :=
  if_pos h

theorem slice_of_le (h : first ≤ stop) (h' : stop ≤ data.size) :
    slice data first stop = .ok (data.extract first stop) :=
  if_pos ⟨h, h'⟩

theorem sliceFrom_of_le (h : first ≤ data.size) :
    sliceFrom data first = .ok (data.extract first data.size) :=
  slice_of_le h (Nat.le_refl _)

end Access

/-! ### Computations without faults -/

section Lift

variable {σ α β : Type}

/-- A computation that only ever fails by its data. -/
def lift (x : Except Failure α) : Checked α :=
  x.mapError .failure

/-- A computation with a state that only ever fails by its data. -/
def liftReader (r : EStateM Failure σ α) : Stateful σ α := fun s =>
  match r s with
  | .ok a s' => .ok a s'
  | .error e s' => .error (.failure e) s'

@[simp] theorem lift_ok (a : α) : lift (.ok a) = .ok a := rfl

@[simp] theorem lift_pure (a : α) : lift (pure a) = pure a := rfl

/-- A sequence of computations without faults has none. -/
theorem lift_bind (x : Except Failure α) (f : α → Except Failure β) :
    lift (x >>= f) = lift x >>= fun a => lift (f a) :=
  mapError_bind _ x f

/-- A sequence has no faults if its parts have none, the second one after what the first one comes
to. -/
theorem bind_eq_lift_bind {x : Checked α} {y : Except Failure α} {f : α → Checked β}
    {g : α → Except Failure β} (h : x = lift y) (hf : ∀ a, y = .ok a → f a = lift (g a)) :
    x >>= f = lift (y >>= g) := by
  rw [h]
  cases y with
  | error => rfl
  | ok a => exact hf a rfl

/-- A sequence has no faults, either, if its first part comes to what the reader keeps in another
form. -/
theorem bind_eq_lift_bind_of_map {γ : Type} {x : Checked γ} {y : Except Failure α} {k : α → γ}
    {f : γ → Checked β} {g : α → Except Failure β} (h : x = lift (y.map k))
    (hf : ∀ a, y = .ok a → f (k a) = lift (g a)) : x >>= f = lift (y >>= g) := by
  rw [h]
  cases y with
  | error => rfl
  | ok a => exact hf a rfl

theorem lift_map (x : Except Failure α) (f : α → β) : lift (x.map f) = (lift x).map f :=
  mapError_map _ x f

theorem lift_mapM {l : List α} {f : α → Except Failure β} {g : α → Checked β}
    (h : ∀ a ∈ l, g a = lift (f a)) : l.mapM g = lift (l.mapM f) :=
  mapError_mapM _ h

/-- Values that are all there are listed. -/
theorem mapM_ok {l : List α} {f : α → Checked β} {g : α → β} (h : ∀ a ∈ l, f a = .ok (g a)) :
    l.mapM f = .ok (l.map g) := by
  induction l with
  | nil => rfl
  | cons a l ih =>
      obtain ⟨ha, hl⟩ := List.forall_mem_cons.mp h
      rw [List.mapM_cons, ha, ih hl]
      rfl

/-- Whether a computation ends with a result or fails by its data, and so in no other way. -/
def Settles (x : Checked α) : Prop :=
  (∃ a, x = .ok a) ∨ ∃ e, x = .error (.failure e)

/-- **A computation that only fails by its data settles.** -/
theorem settles_lift (x : Except Failure α) : Settles (lift x) := by
  cases x with
  | ok a => exact .inl ⟨a, rfl⟩
  | error e => exact .inr ⟨e, rfl⟩

/-- What a reader comes to is what it comes to on a machine. -/
theorem liftReader_of_eq_ok {r : EStateM Failure σ α} {s s' : σ} {a : α} (h : r s = .ok a s') :
    liftReader r s = .ok a s' := by
  rw [liftReader, h]

theorem liftReader_of_eq_error {r : EStateM Failure σ α} {s s' : σ} {e : Failure}
    (h : r s = .error e s') : liftReader r s = .error (.failure e) s' := by
  rw [liftReader, h]

theorem liftReader_pure (a : α) : liftReader (pure a : EStateM Failure σ α) = pure a := rfl

/-- A sequence of readers without faults has none. -/
theorem liftReader_bind (r : EStateM Failure σ α) (f : α → EStateM Failure σ β) :
    liftReader (r >>= f) = liftReader r >>= fun a => liftReader (f a) := by
  funext s
  change liftReader (EStateM.bind r f) s = EStateM.bind (liftReader r) _ s
  simp only [liftReader, EStateM.bind]
  cases r s <;> rfl

/-- A sequence of readers has no faults from a state on, if its parts have none, the second one
after what the first one comes to. -/
theorem bind_apply_eq_liftReader {r : Stateful σ α} {d : EStateM Failure σ α}
    {f : α → Stateful σ β} {g : α → EStateM Failure σ β} {s : σ} (h : r s = liftReader d s)
    (hf : ∀ a s', d s = .ok a s' → f a s' = liftReader (g a) s') :
    (r >>= f) s = liftReader (d >>= g) s := by
  rw [liftReader_bind]
  change EStateM.bind r f s = EStateM.bind (liftReader d) _ s
  unfold EStateM.bind
  rw [h, liftReader]
  cases hd : d s with
  | ok a s' => exact hf a s' hd
  | error => rfl

/-- A sequence of readers has no faults if its parts have none. -/
theorem bind_eq_liftReader_bind {r : Stateful σ α} {d : EStateM Failure σ α} {f : α → Stateful σ β}
    {g : α → EStateM Failure σ β} (h : r = liftReader d)
    (hf : ∀ a s s', d s = .ok a s' → f a s' = liftReader (g a) s') :
    r >>= f = liftReader (d >>= g) :=
  funext fun s => bind_apply_eq_liftReader (congrFun h s) fun a s' => hf a s s'

end Lift

end AliasStubs.Machine
