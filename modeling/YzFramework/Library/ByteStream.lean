import Mathlib.Data.List.Basic

/-! Streams that may give less than a read asks for: at least one item, until
nothing is left. -/
namespace YzFramework.Library

/-- What is left, what each read in turn is willing to give, and the reads so far. -/
structure ByteStream (Byte : Type*) where
  left : List Byte
  willing : ℕ → ℕ
  reads : ℕ := 0

namespace ByteStream

variable {Byte : Type*}

def amount (stream : ByteStream Byte) (requested : ℕ) : ℕ :=
  min requested (max 1 (min (stream.willing stream.reads) stream.left.length))

def after (stream : ByteStream Byte) (requested : ℕ) : ByteStream Byte :=
  { stream with left := stream.left.drop (stream.amount requested), reads := stream.reads+1 }

/-- `none` is the end of the stream. -/
def read (stream : ByteStream Byte) (requested : ℕ) : Option (List Byte) :=
  if requested = 0 then some []
  else if stream.left = [] then none
  else some (stream.left.take (stream.amount requested))

theorem read_none {stream : ByteStream Byte} {requested : ℕ} (ended : stream.read requested = none) :
    stream.left = [] := by
  rw [read] at ended
  split_ifs at ended with _ empty
  exact empty

theorem read_some {stream : ByteStream Byte} {requested : ℕ} {got : List Byte} (positive : 0 < requested)
    (given : stream.read requested = some got) :
    0 < got.length ∧ got.length ≤ requested ∧ stream.left = got ++ (stream.after requested).left := by
  rw [read,if_neg (by omega)] at given
  split_ifs at given with empty
  have some := List.length_pos_iff.mpr empty
  rw [← Option.some.inj given,List.length_take,after,List.take_append_drop,amount]
  exact ⟨by omega,by omega,rfl⟩

theorem after_shorter {stream : ByteStream Byte} {requested : ℕ} {got : List Byte} (positive : 0 < requested)
    (given : stream.read requested = some got) : (stream.after requested).left.length < stream.left.length := by
  obtain ⟨some,_,whole⟩ := read_some positive given
  rw [whole,List.length_append]
  omega

def store (buffer : List Byte) (offset : ℕ) (got : List Byte) : List Byte :=
  buffer.take offset ++ got ++ buffer.drop (offset+got.length)

theorem store_length {buffer got : List Byte} {offset : ℕ} (fits : offset+got.length ≤ buffer.length) :
    (store buffer offset got).length = buffer.length := by
  rw [store,List.length_append,List.length_append,List.length_take,List.length_drop]
  omega

theorem store_take {buffer got : List Byte} {offset : ℕ} (fits : offset+got.length ≤ buffer.length) :
    (store buffer offset got).take (offset+got.length) = buffer.take offset ++ got := by
  apply List.take_left'
  rw [List.length_append,List.length_take]
  omega

theorem kilobyte_pos : 0 < 1024 := by decide

/-- A copy of a stream through a buffer, read by read. -/
def copy (stream : ByteStream Byte) (size : ℕ) (positive : 0 < size) (buffer out : List Byte) : List Byte :=
  match given : stream.read size with
  | none => out
  | some got =>
    have _ := after_shorter positive given
    let buffer := store buffer 0 got
    copy (stream.after size) size positive buffer (out ++ buffer.take got.length)
termination_by stream.left.length

theorem copy_eq (stream : ByteStream Byte) (size : ℕ) (positive : 0 < size) {buffer : List Byte}
    (full : buffer.length = size) (out : List Byte) :
    stream.copy size positive buffer out = out ++ stream.left := by
  obtain ⟨length,measured⟩ : ∃ length, stream.left.length = length := ⟨_,rfl⟩
  induction length using Nat.strongRecOn generalizing stream buffer out with
  | _ length ih =>
    rw [copy]
    split
    · rename_i ended
      rw [read_none ended,List.append_nil]
    · rename_i got given
      obtain ⟨_,fits,whole⟩ := read_some positive given
      have shorter := after_shorter positive given
      have inside : 0+got.length ≤ buffer.length := by omega
      have taken := store_take inside
      rw [Nat.zero_add,List.take_zero,List.nil_append] at taken
      rw [ih _ (by omega) _ ((store_length inside).trans full) _ rfl,taken,whole,List.append_assoc]

def fill (stream : ByteStream Byte) (offset : ℕ) (buffer : List Byte) : ℕ × List Byte :=
  if more : offset < buffer.length then
    match given : stream.read (buffer.length-offset) with
    | none => (offset,buffer)
    | some got =>
      have _ := after_shorter (Nat.sub_pos_of_lt more) given
      fill (stream.after (buffer.length-offset)) (offset+got.length) (store buffer offset got)
  else (offset,buffer)
termination_by stream.left.length

theorem fill_eq (stream : ByteStream Byte) (offset : ℕ) (buffer : List Byte)
    (room : offset+stream.left.length = buffer.length) :
    stream.fill offset buffer = (buffer.length,buffer.take offset ++ stream.left) := by
  obtain ⟨length,measured⟩ : ∃ length, stream.left.length = length := ⟨_,rfl⟩
  induction length using Nat.strongRecOn generalizing stream offset buffer with
  | _ length ih =>
    rw [fill]
    split_ifs with more
    · split
      · rename_i ended
        rw [read_none ended,List.length_nil] at room
        omega
      · rename_i got given
        obtain ⟨_,fits,whole⟩ := read_some (Nat.sub_pos_of_lt more) given
        have shorter := after_shorter (Nat.sub_pos_of_lt more) given
        have inside : offset+got.length ≤ buffer.length := by omega
        have same := store_length inside
        have left : stream.left.length =
            got.length+(stream.after (buffer.length-offset)).left.length := by
          conv_lhs => rw [whole]
          exact List.length_append
        rw [ih _ (by omega) _ _ _ (by omega) rfl,same,store_take inside,List.append_assoc,← whole]
    · have empty : stream.left = [] := List.eq_nil_of_length_eq_zero (by omega)
      have full : offset = buffer.length := by omega
      rw [empty,full,List.take_length,List.append_nil]

end ByteStream

end YzFramework.Library
