import ChangeRelay.Zstd.Frame

/-!
# Stored frames

What is written as stored blocks is read back. A reader stands at an offset of an array, so the
statements are about what the array holds from there on.
-/

namespace ChangeRelay.Zstd

/-- The data goes on with these octets at an offset. -/
def Holds (data : Array UInt8) (i : Nat) (front : Bytes) : Prop :=
  ∃ before behind, data.toList = before ++ (front ++ behind) ∧ before.length = i

namespace Holds

variable {data : Array UInt8} {i : Nat} {front as bs : Bytes}

theorem start (bytes : Bytes) : Holds bytes.toArray 0 bytes := ⟨[], [], by simp, rfl⟩

theorem left (h : Holds data i (as ++ bs)) : Holds data i as := by
  obtain ⟨before, behind, hdata, hlen⟩ := h
  exact ⟨before, bs ++ behind, by simpa using hdata, hlen⟩

theorem right (h : Holds data i (as ++ bs)) : Holds data (i + as.length) bs := by
  obtain ⟨before, behind, hdata, hlen⟩ := h
  exact ⟨before ++ as, behind, by simpa using hdata, by simp [hlen]⟩

theorem le_size (h : Holds data i front) : i + front.length ≤ data.size := by
  obtain ⟨before, behind, hdata, rfl⟩ := h
  have hsize := congrArg List.length hdata
  simp only [Array.length_toList, List.length_append] at hsize
  omega

theorem getD {b : UInt8} (h : Holds data i (b :: front)) : data.getD i 0 = b := by
  obtain ⟨before, behind, hdata, rfl⟩ := h
  have hget : data.toList[before.length]? = some b := by simp [hdata]
  rw [Array.getElem?_toList] at hget
  simp [hget]

theorem tail {b : UInt8} (h : Holds data i (b :: front)) : Holds data (i + 1) front := by
  have hsplit : Holds data i ([b] ++ front) := h
  exact hsplit.right

theorem extract (h : Holds data i front) :
    data.extract i (i + front.length) = front.toArray := by
  obtain ⟨before, behind, hdata, rfl⟩ := h
  apply Array.toList_inj.1
  simp [hdata]

end Holds

variable {data : Array UInt8} {i n v : Nat}

/-! ## Numbers -/

/-- One octet more. -/
theorem pow2_octet (n : Nat) : pow2 (8 * (n + 1)) = 256 * pow2 (8 * n) := by
  have hadd : pow2 (8 * n + 8) = pow2 (8 * n) * pow2 8 := Nat.pow_add 2 (8 * n) 8
  rw [Nat.mul_succ, hadd, Nat.mul_comm]
  rfl

theorem littleEndian_succ (data : Array UInt8) (i n : Nat) :
    littleEndian data i (n + 1) =
      littleEndian data (i + 1) n * 256 + (data.getD i 0).toNat := by
  simp [littleEndian, List.range_succ_eq_map, List.foldr_map, Nat.add_comm, Nat.add_left_comm]

theorem littleEndianBytes_succ (n v : Nat) :
    littleEndianBytes (n + 1) v = UInt8.ofNat v :: littleEndianBytes n (v / 256) := by
  have hshift : ∀ k, v / pow2 (8 * (k + 1)) = v / 256 / pow2 (8 * k) := by
    intro k
    rw [pow2_octet, Nat.div_div_eq_div_mul]
  have hfirst : v / pow2 (8 * 0) = v := Nat.div_one v
  have hrest : (fun k => UInt8.ofNat (v / pow2 (8 * k))) ∘ Nat.succ =
      fun k => UInt8.ofNat (v / 256 / pow2 (8 * k)) :=
    funext fun k => congrArg UInt8.ofNat (hshift k)
  rw [littleEndianBytes, List.range_succ_eq_map, List.map_cons, List.map_map, hfirst, hrest,
    littleEndianBytes]

@[simp] theorem length_littleEndianBytes (n v : Nat) : (littleEndianBytes n v).length = n := by
  simp [littleEndianBytes]

/-- A number is read back, as far as its octets go. -/
theorem littleEndian_of_holds (h : Holds data i (littleEndianBytes n v)) :
    littleEndian data i n = v % pow2 (8 * n) := by
  induction n generalizing i v with
  | zero => exact (Nat.mod_one v).symm
  | succ n ih =>
      rw [littleEndianBytes_succ] at h
      have hfirst : (UInt8.ofNat v).toNat = v % 256 := by simp
      rw [littleEndian_succ, ih h.tail, h.getD, hfirst, pow2_octet, Nat.mod_mul]
      omega

/-! ## Blocks -/

theorem littleEndian_of_holds_of_lt (h : Holds data i (littleEndianBytes n v))
    (hv : v < pow2 (8 * n)) : littleEndian data i n = v := by
  rw [littleEndian_of_holds h, Nat.mod_eq_of_lt hv]

/-- The octets of one stored block, with its header. -/
def storedBlock (block : Bytes) (last : Nat) : Bytes :=
  littleEndianBytes 3 (block.length * 8 + last) ++ block

theorem storedBlocks_last {fuel : Nat} {bytes : Bytes} (h : bytes.length ≤ maxBlockSize) :
    storedBlocks (fuel + 1) bytes = storedBlock bytes 1 := by
  have hrest : bytes.drop maxBlockSize = [] := List.drop_eq_nil_of_le h
  simp [storedBlocks, hrest, List.take_of_length_le h, storedBlock]

theorem storedBlocks_more {fuel : Nat} {bytes : Bytes} (h : maxBlockSize < bytes.length) :
    storedBlocks (fuel + 1) bytes =
      storedBlock (bytes.take maxBlockSize) 0 ++
        storedBlocks fuel (bytes.drop maxBlockSize) := by
  have hrest : bytes.drop maxBlockSize ≠ [] := by simpa using h
  simp [storedBlocks, hrest, storedBlock]

variable {limit : Nat} {c : Context} {out : Array UInt8} {block bytes : Bytes}

/-- What a reader makes of a stored block. -/
theorem decodeBlocks?_storedBlock {last : Nat} (h : Holds data i (storedBlock block last))
    (hlast : last ≤ 1) (hblock : block.length ≤ maxBlockSize) (hlimit : maxBlockSize ≤ limit)
    (fuel : Nat) :
    decodeBlocks? data limit (fuel + 1) i c out =
      if last = 1 then some (out ++ block.toArray, i + (storedBlock block last).length)
      else decodeBlocks? data limit fuel (i + (storedBlock block last).length) c
        (out ++ block.toArray) := by
  -- the header is one number: whether the block is the last, its kind, its length
  have hmax : maxBlockSize = 131072 := rfl
  have hthree : pow2 (8 * 3) = 16777216 := rfl
  have hheader : littleEndian data i 3 = block.length * 8 + last :=
    littleEndian_of_holds_of_lt h.left (by omega)
  have hdata : data.extract (i + 3) (i + 3 + block.length) = block.toArray := by
    simpa using h.right.extract
  have hlen : i + (storedBlock block last).length = i + 3 + block.length := by
    simp [storedBlock, Nat.add_assoc]
  have hsize := h.le_size
  rw [hlen] at hsize ⊢
  have hwhole : (block.length * 8 + last) / 8 = block.length := by omega
  have hkind : (block.length * 8 + last) / 2 % 4 = 0 := by omega
  have hbit : (block.length * 8 + last) % 2 = last := by omega
  have h3 : ¬ data.size < i + 3 := by omega
  have hfits : ¬ data.size < i + 3 + block.length := by omega
  have hlim : ¬ limit < block.length := by omega
  rw [decodeBlocks?]
  simp only [h3, hheader, hwhole, hkind, hbit, hlim, hfits, hdata]
  simp [hlim]

theorem length_le_storedBlocks {fuel : Nat} (h : bytes.length < fuel * maxBlockSize) :
    bytes.length ≤ (storedBlocks fuel bytes).length := by
  induction fuel generalizing bytes with
  | zero => omega
  | succ fuel ih =>
      rw [Nat.succ_mul] at h
      rcases Nat.lt_or_ge maxBlockSize bytes.length with hmore | hlast
      · have hdrop : (bytes.drop maxBlockSize).length < fuel * maxBlockSize := by
          rw [List.length_drop]
          omega
        have hrest := ih hdrop
        rw [List.length_drop] at hrest
        rw [storedBlocks_more hmore, List.length_append, storedBlock, List.length_append,
          List.length_take]
        omega
      · rw [storedBlocks_last hlast, storedBlock, List.length_append]
        omega

/-- Stored blocks are read back up to the last of them. -/
theorem decodeBlocks?_storedBlocks {fuel blocks : Nat}
    (h : Holds data i (storedBlocks blocks bytes))
    (hbytes : bytes.length < blocks * maxBlockSize) (hfuel : blocks ≤ fuel)
    (hlimit : maxBlockSize ≤ limit) :
    decodeBlocks? data limit fuel i c out =
      some (out ++ bytes.toArray, i + (storedBlocks blocks bytes).length) := by
  induction blocks generalizing bytes i fuel out with
  | zero => omega
  | succ blocks ih =>
      obtain ⟨fuel, rfl⟩ := Nat.exists_eq_add_of_lt hfuel
      rw [Nat.succ_mul] at hbytes
      rcases Nat.lt_or_ge maxBlockSize bytes.length with hmore | hlast
      · rw [storedBlocks_more hmore] at h ⊢
        have htake : (bytes.take maxBlockSize).length ≤ maxBlockSize := List.length_take_le _ _
        have hdrop : (bytes.drop maxBlockSize).length < blocks * maxBlockSize := by
          rw [List.length_drop]
          omega
        have hjoin : (bytes.take maxBlockSize).toArray ++ (bytes.drop maxBlockSize).toArray =
            bytes.toArray := by simp
        rw [decodeBlocks?_storedBlock h.left (Nat.zero_le 1) htake hlimit, if_neg Nat.zero_ne_one,
          ih h.right hdrop (by omega), Array.append_assoc, hjoin, List.length_append, Nat.add_assoc]
      · rw [storedBlocks_last hlast] at h ⊢
        rw [decodeBlocks?_storedBlock h (Nat.le_refl 1) hlast hlimit, if_pos rfl]

/-! ## Frames -/

/-- The header of a stored frame: blocks may have any size up to the largest. -/
theorem readHeader?_stored (h : Holds data i [0x00, 0x58]) :
    readHeader? data i =
      some { window := pow2 21, contentSize := none, checksum := false, next := i + 2 } := by
  have hsize := h.le_size
  simp only [List.length_cons, List.length_nil] at hsize
  have hsmall : ¬ maxWindow < pow2 21 := by decide
  have hnone : littleEndian data (i + 1 + 1) 0 = 0 := rfl
  have hin : ¬ data.size ≤ i := by omega
  have hfits : ¬ data.size < i + 1 + 1 := by omega
  simp only [readHeader?, h.getD, h.tail.getD]
  simp [hin, hfits, hnone, hsmall]

theorem decodeFrame?_stored (h : Holds data i ([0x00, 0x58] ++
    storedBlocks (bytes.length / maxBlockSize + 1) bytes)) :
    decodeFrame? data i = some (bytes.toArray,
      i + 2 + (storedBlocks (bytes.length / maxBlockSize + 1) bytes).length) := by
  have hbytes : bytes.length < (bytes.length / maxBlockSize + 1) * maxBlockSize :=
    (Nat.div_lt_iff_lt_mul (by decide)).1 (Nat.lt_succ_self _)
  have hsize := h.right.le_size
  have hlength := length_le_storedBlocks hbytes
  have hfuel : bytes.length / maxBlockSize + 1 ≤ data.size + 1 := by
    have := Nat.div_le_self bytes.length maxBlockSize
    omega
  -- the window of the header leaves room for the largest block
  have hlimit : ¬ pow2 21 < maxBlockSize := by decide
  have hblocks : decodeBlocks? data maxBlockSize (data.size + 1) (i + 2) {} #[] =
      some (#[] ++ bytes.toArray, _) :=
    decodeBlocks?_storedBlocks h.right hbytes hfuel (Nat.le_refl _)
  rw [decodeFrame?, readHeader?_stored h.left]
  simp [hlimit, hblocks]

/-- Compressed data is what it was made from. -/
theorem expand?_store (bytes : Bytes) : expand? (store bytes) = some bytes := by
  have hclaims : isCompressed (store bytes) = true := by
    simp [isCompressed, store, magicBytes]
  have hstart : Holds (store bytes).toArray 0 (magicBytes ++ ([0x00, 0x58] ++
      storedBlocks (bytes.length / maxBlockSize + 1) bytes)) := by
    simpa [store] using Holds.start (store bytes)
  have hmagic : littleEndian (store bytes).toArray 0 4 = magic :=
    littleEndian_of_holds_of_lt (n := 4) (v := magic) hstart.left (by decide)
  have hframe : decodeFrame? (store bytes).toArray (0 + 4) = _ := decodeFrame?_stored hstart.right
  have hsize : (store bytes).toArray.size =
      0 + 4 + 2 + (storedBlocks (bytes.length / maxBlockSize + 1) bytes).length := by
    simp [store, magicBytes]
    omega
  -- one frame, and nothing behind it
  have hread : ∀ fuel, decodeFrames? (store bytes).toArray (fuel + 2) 0 #[] =
      some bytes.toArray := by
    intro fuel
    have hne : (0 : Nat) ≠ (store bytes).toArray.size := by omega
    have hfits : ¬ (store bytes).toArray.size < 0 + 4 := by omega
    rw [decodeFrames?]
    simp only [hne, hfits, hmagic, hframe, ← hsize]
    simp [decodeFrames?]
  obtain ⟨fuel, hfuel⟩ : ∃ fuel, (store bytes).toArray.size + 1 = fuel + 2 :=
    ⟨(store bytes).toArray.size - 1, by omega⟩
  rw [expand?, if_pos hclaims]
  simp only [hfuel, hread, Option.map_some]

end ChangeRelay.Zstd
