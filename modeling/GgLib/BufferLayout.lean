import GgLib.Buffer

/-! Every well-formed `Buffer` is a vector split into the cells before the readable
bytes, the readable bytes and the cells after them. Each operation is described
once on such layouts, which gives its effect on the represented byte queue. -/
namespace GgLib
namespace Buffer

open MemoryBlock

/-- The representation invariant, for a vector that the allocator can provide. -/
structure Wf (b : Buffer) : Prop where
  reader_le : b.readerIndex ≤ b.writerIndex
  writer_le : b.writerIndex ≤ b.buffer.length
  prepend_le : kCheapPrepend ≤ b.buffer.length
  size_lt : b.buffer.length < 2^63

structure Layout where
  front : List Byte
  content : List Byte
  back : List Byte

namespace Layout

def cells (l : Layout) : List Byte := l.front++l.content++l.back

def toBuffer (l : Layout) : Buffer :=
  ⟨l.cells,l.front.length,l.front.length+l.content.length⟩

@[simp] theorem cells_length (l : Layout) :
    l.cells.length = l.front.length+l.content.length+l.back.length := by
  simp [cells,Nat.add_assoc]

def Sized (l : Layout) : Prop := kCheapPrepend ≤ l.cells.length ∧ l.cells.length < 2^63

theorem Sized.wf {l : Layout} (h : l.Sized) : Wf l.toBuffer := by
  refine ⟨?_,?_,h.1,h.2⟩
  · exact Nat.le_add_right _ _
  · simp only [toBuffer,cells_length]
    omega

theorem readableBytes_toBuffer {l : Layout} (h : l.Sized) :
    l.toBuffer.readableBytes = l.content.length := by
  have h₂ := h.2
  rw [cells_length] at h₂
  simp only [readableBytes,toBuffer]
  rw [sizeSub_of_le (by omega) (by omega)]
  omega

theorem writableBytes_toBuffer {l : Layout} (h : l.Sized) :
    l.toBuffer.writableBytes = l.back.length := by
  have h₂ := h.2
  rw [cells_length] at h₂
  simp only [writableBytes,toBuffer,cells_length]
  rw [sizeSub_of_le (by omega) (by omega)]
  omega

theorem toStringView_toBuffer {l : Layout} (h : l.Sized) : l.toBuffer.toStringView = l.content := by
  rw [toStringView,readableBytes_toBuffer h]
  exact window_split _ _ _

end Layout

open Layout

theorem Wf.exists_layout {b : Buffer} (h : Wf b) : ∃ l : Layout, l.Sized ∧ l.toBuffer = b := by
  obtain ⟨front,content,back,hc,hf,hn⟩ := exists_split b.buffer b.readerIndex
    (b.writerIndex-b.readerIndex) (by have := h.reader_le; have := h.writer_le; omega)
  refine ⟨⟨front,content,back⟩,⟨?_,?_⟩,?_⟩
  · simpa [cells,← hc] using h.prepend_le
  · simpa [cells,← hc] using h.size_lt
  · have hr := h.reader_le
    cases b
    simp only [toBuffer,cells,Buffer.mk.injEq] at *
    exact ⟨hc.symm,hf,by omega⟩

theorem create_spec {n : ℕ} (h : kCheapPrepend+n < 2^63) :
    Wf (create n) ∧ (create n).toStringView = [] := by
  have hs : sizeAdd kCheapPrepend n = kCheapPrepend+n := sizeAdd_of_lt (by omega)
  have hw : Wf (create n) := by
    refine ⟨le_rfl,?_,?_,?_⟩ <;> simp only [create,List.length_replicate,hs] <;> omega
  refine ⟨hw,?_⟩
  have hr : (create n).readableBytes = 0 := by
    simp [readableBytes,create,kCheapPrepend,sizeSub]
  simp [toStringView,hr,window]

theorem readableBytes_eq {b : Buffer} (h : Wf b) : b.readableBytes = b.toStringView.length := by
  obtain ⟨l,hl,rfl⟩ := h.exists_layout
  rw [readableBytes_toBuffer hl,toStringView_toBuffer hl]

theorem retrieveAll_spec {b : Buffer} (h : Wf b) :
    Wf b.retrieveAll ∧ b.retrieveAll.toStringView = [] := by
  refine ⟨⟨le_rfl,h.prepend_le,h.prepend_le,h.size_lt⟩,?_⟩
  have hr : b.retrieveAll.readableBytes = 0 := by
    simp [readableBytes,retrieveAll,kCheapPrepend,sizeSub]
  simp [toStringView,hr,window]

theorem retrieve_spec {b : Buffer} (h : Wf b) {len : ℕ} (hlen : len ≤ b.readableBytes) :
    Wf (b.retrieve len) ∧ (b.retrieve len).toStringView = b.toStringView.drop len := by
  obtain ⟨l,hl,rfl⟩ := h.exists_layout
  rw [readableBytes_toBuffer hl] at hlen
  rw [retrieve,readableBytes_toBuffer hl,toStringView_toBuffer hl]
  split
  · rename_i hlt
    have hc := hl.2
    rw [cells_length] at hc
    let m : Layout := ⟨l.front++l.content.take len,l.content.drop len,l.back⟩
    have hm : m.cells = l.cells := by simp [m,cells]
    have hb : { l.toBuffer with readerIndex := sizeAdd l.toBuffer.readerIndex len } = m.toBuffer := by
      have hadd : sizeAdd l.front.length len = l.front.length+len := sizeAdd_of_lt (by omega)
      simp only [toBuffer,hm,Buffer.mk.injEq,true_and,hadd]
      simp only [m,List.length_append,List.length_take,List.length_drop]
      omega
    have hs : m.Sized := by rwa [Sized,hm]
    rw [hb]
    exact ⟨hs.wf,toStringView_toBuffer hs⟩
  · rename_i hge
    obtain ⟨hw,hv⟩ := retrieveAll_spec hl.wf
    exact ⟨hw,by rw [hv,List.drop_eq_nil_of_le (by omega)]⟩

theorem retrieveAsString_spec {b : Buffer} {len : ℕ} (hlen : len ≤ b.readableBytes) :
    (b.retrieveAsString len).1 = b.toStringView.take len := by
  rw [retrieveAsString,toStringView,window,window,List.take_take,Nat.min_eq_left hlen]

theorem unWrite_spec {b : Buffer} (h : Wf b) {len : ℕ} (hlen : len ≤ b.readableBytes) :
    Wf (b.unWrite len) ∧
      (b.unWrite len).toStringView = b.toStringView.take (b.toStringView.length-len) := by
  obtain ⟨l,hl,rfl⟩ := h.exists_layout
  rw [readableBytes_toBuffer hl] at hlen
  rw [toStringView_toBuffer hl]
  have hc := hl.2
  rw [cells_length] at hc
  let n := l.content.length-len
  let m : Layout := ⟨l.front,l.content.take n,l.content.drop n++l.back⟩
  have hm : m.cells = l.cells := by
    simp only [m,cells,List.append_assoc,List.append_cancel_left_eq]
    rw [← List.append_assoc,List.take_append_drop]
  have hb : l.toBuffer.unWrite len = m.toBuffer := by
    simp only [unWrite,toBuffer,hm,Buffer.mk.injEq,true_and]
    refine ⟨rfl,?_⟩
    rw [sizeSub_of_le (by omega) (by omega)]
    simp only [m,n,List.length_take]
    omega
  have hs : m.Sized := by rwa [Sized,hm]
  rw [hb]
  exact ⟨hs.wf,toStringView_toBuffer hs⟩

theorem write_spec {b : Buffer} (h : Wf b) {data : List Byte} (hlen : data.length ≤ b.writableBytes) :
    Wf ((b.copyToWrite data).hasWritten data.length) ∧
      ((b.copyToWrite data).hasWritten data.length).toStringView = b.toStringView++data ∧
      ((b.copyToWrite data).hasWritten data.length).buffer.length = b.buffer.length ∧
      ((b.copyToWrite data).hasWritten data.length).writableBytes = b.writableBytes-data.length := by
  obtain ⟨l,hl,rfl⟩ := h.exists_layout
  rw [writableBytes_toBuffer hl] at hlen ⊢
  rw [toStringView_toBuffer hl]
  have hc := hl.2
  rw [cells_length] at hc
  let m : Layout := ⟨l.front,l.content++data,l.back.drop data.length⟩
  have hcells : overwrite l.cells (l.front.length+l.content.length) data = m.cells := by
    have hw := overwrite_split (l.front++l.content) (l.back.take data.length)
      (l.back.drop data.length) data (by rw [List.length_take]; omega)
    rw [List.append_assoc (l.front++l.content),List.take_append_drop,List.length_append] at hw
    simpa [m,cells] using hw
  have hb : (l.toBuffer.copyToWrite data).hasWritten data.length = m.toBuffer := by
    simp only [copyToWrite,hasWritten,toBuffer,hcells,Buffer.mk.injEq,true_and]
    rw [sizeAdd_of_lt (by omega)]
    simp [m,Nat.add_assoc]
  have hlen' : m.cells.length = l.cells.length := by
    rw [← hcells,overwrite_length]
  have hs : m.Sized := by rwa [Sized,hlen']
  rw [hb]
  refine ⟨hs.wf,toStringView_toBuffer hs,hlen',?_⟩
  rw [writableBytes_toBuffer hs,List.length_drop]

theorem prepend_spec {b : Buffer} (h : Wf b) {data : List Byte}
    (hlen : data.length ≤ b.prependableBytes) :
    Wf (b.prepend data) ∧ (b.prepend data).toStringView = data++b.toStringView := by
  obtain ⟨l,hl,rfl⟩ := h.exists_layout
  rw [toStringView_toBuffer hl]
  have hc := hl.2
  rw [cells_length] at hc
  change data.length ≤ l.front.length at hlen
  let n := l.front.length-data.length
  let m : Layout := ⟨l.front.take n,data++l.content,l.back⟩
  have hsub : sizeSub l.front.length data.length = n := sizeSub_of_le hlen (by omega)
  have hn : (l.front.take n).length = n := by rw [List.length_take]; omega
  have hcells : overwrite l.cells n data = m.cells := by
    have hw := overwrite_split (l.front.take n) (l.front.drop n) (l.content++l.back) data
      (by rw [List.length_drop]; omega)
    rw [List.take_append_drop,hn] at hw
    simpa [m,cells] using hw
  have hb : l.toBuffer.prepend data = m.toBuffer := by
    have hf : m.front.length = n := hn
    have hcont : m.content.length = data.length+l.content.length := List.length_append
    simp only [prepend,toBuffer,hsub,hcells,hf,hcont,Buffer.mk.injEq,true_and]
    omega
  have hlen' : m.cells.length = l.cells.length := by
    rw [← hcells,overwrite_length]
  have hs : m.Sized := by rwa [Sized,hlen']
  rw [hb]
  exact ⟨hs.wf,toStringView_toBuffer hs⟩

theorem grow_spec {b : Buffer} (h : Wf b) {len : ℕ} (hlen : b.writableBytes ≤ len)
    (hsize : b.writerIndex+len < 2^63) :
    Wf (b.grow len) ∧ (b.grow len).toStringView = b.toStringView ∧
      (b.grow len).writableBytes = len ∧ (b.grow len).buffer.length = b.writerIndex+len := by
  obtain ⟨l,hl,rfl⟩ := h.exists_layout
  rw [writableBytes_toBuffer hl] at hlen
  rw [toStringView_toBuffer hl]
  have h8 := hl.1
  have hc := cells_length l
  let m : Layout := ⟨l.front,l.content,l.back++List.replicate (len-l.back.length) 0⟩
  have hwriter : l.toBuffer.writerIndex = l.front.length+l.content.length := rfl
  rw [hwriter] at hsize ⊢
  have hcells : resize l.cells (l.front.length+l.content.length+len) 0 = m.cells := by
    rw [resize_split _ _ _ (by omega)]
    have hk : l.front.length+l.content.length+len-l.cells.length = len-l.back.length := by omega
    rw [hk]
    simp [m,cells]
  have hb : l.toBuffer.grow len = m.toBuffer := by
    simp only [grow,toBuffer,Buffer.mk.injEq]
    rw [sizeAdd_of_lt (by omega),hcells]
    exact ⟨rfl,rfl,rfl⟩
  have hback : m.back.length = len := by
    simp only [m,List.length_append,List.length_replicate]
    omega
  have hm : m.cells.length = l.front.length+l.content.length+len := by
    rw [cells_length,hback]
  have hs : m.Sized := ⟨by omega,by omega⟩
  rw [hb]
  exact ⟨hs.wf,toStringView_toBuffer hs,by rw [writableBytes_toBuffer hs,hback],hm⟩

/-- Compaction keeps the readable bytes and the vector's size; all room before the
readable bytes but the eight reserved cells becomes writable. -/
theorem compact_spec {b : Buffer} (h : Wf b) :
    Wf b.compact ∧ b.compact.toStringView = b.toStringView ∧
      b.compact.buffer.length = b.buffer.length ∧
      b.compact.writableBytes = b.writableBytes+(b.readerIndex-kCheapPrepend) := by
  obtain ⟨l,hl,rfl⟩ := h.exists_layout
  by_cases hlt : kCheapPrepend < l.front.length
  · have hc := cells_length l
    have hsize := hl.2
    let m : Layout := ⟨l.cells.take kCheapPrepend,l.content,
      l.cells.drop (kCheapPrepend+l.content.length)⟩
    have hf : m.front.length = kCheapPrepend := by
      simp only [m,List.length_take]
      omega
    have hcells : overwrite l.cells kCheapPrepend l.content = m.cells :=
      overwrite_fit _ _ _ (by omega)
    have hlen' : m.cells.length = l.cells.length := by
      rw [← hcells,overwrite_length]
    have hb : l.toBuffer.compact = m.toBuffer := by
      have hcond : kCheapPrepend < l.toBuffer.readerIndex := hlt
      rw [compact,if_pos hcond,← toStringView,toStringView_toBuffer hl,readableBytes_toBuffer hl,
        sizeAdd_of_lt (by omega)]
      simp only [toBuffer,hf,hcells]
      rfl
    have hs : m.Sized := by rwa [Sized,hlen']
    have hback : m.back.length = l.back.length+(l.front.length-kCheapPrepend) := by
      simp only [m,List.length_drop]
      omega
    rw [hb,toStringView_toBuffer hs,toStringView_toBuffer hl,writableBytes_toBuffer hs,
      writableBytes_toBuffer hl]
    exact ⟨hs.wf,rfl,hlen',hback⟩
  · have hb : l.toBuffer.compact = l.toBuffer := if_neg hlt
    have hz : l.toBuffer.readerIndex-kCheapPrepend = 0 := Nat.sub_eq_zero_of_le (by
      simpa [toBuffer] using hlt)
    rw [hb,hz]
    exact ⟨h,rfl,rfl,(Nat.add_zero _).symm⟩

@[simp] theorem compact_length (b : Buffer) : b.compact.buffer.length = b.buffer.length := by
  rw [compact]
  split <;> simp

theorem ensureWritableBytes_length_le (b : Buffer) (len : ℕ) :
    (b.ensureWritableBytes len).buffer.length ≤ max b.buffer.length (b.writerIndex+len) := by
  have hadd : sizeAdd b.writerIndex len ≤ b.writerIndex+len := Nat.mod_le _ _
  rw [ensureWritableBytes]
  split
  · rw [makeSpace]
    split
    · rw [compact_length,grow,resize_length]
      omega
    · rw [compact_length]
      omega
  · omega

/-- Enough room is made at the back, whatever mix of writable and prependable room
there was, and the readable bytes stay. -/
theorem ensureWritableBytes_spec {b : Buffer} (h : Wf b) {len : ℕ} (hlen : len < 2^63)
    (hfit : (b.ensureWritableBytes len).buffer.length < 2^63) :
    Wf (b.ensureWritableBytes len) ∧ (b.ensureWritableBytes len).toStringView = b.toStringView ∧
      len ≤ (b.ensureWritableBytes len).writableBytes := by
  rw [ensureWritableBytes] at hfit ⊢
  split at hfit
  · rename_i hshort
    rw [if_pos hshort]
    rw [makeSpace] at hfit ⊢
    have hw : b.writableBytes = b.buffer.length-b.writerIndex :=
      sizeSub_of_le h.writer_le (by have := h.size_lt; omega)
    have hr := h.reader_le
    have hwr := h.writer_le
    have hs := h.size_lt
    have hsum : sizeAdd b.writableBytes b.prependableBytes = b.writableBytes+b.readerIndex :=
      sizeAdd_of_lt (by rw [prependableBytes]; omega)
    have hneed : sizeAdd len kCheapPrepend = len+kCheapPrepend :=
      sizeAdd_of_lt (by rw [kCheapPrepend]; omega)
    split at hfit
    · rename_i hgrow
      rw [if_pos hgrow]
      have hadd : sizeAdd b.writerIndex len = b.writerIndex+len := sizeAdd_of_lt (by omega)
      have hgl : (b.grow len).buffer.length = b.writerIndex+len := by
        rw [grow,resize_length,hadd]
      have hcl : (b.grow len).compact.buffer.length = b.writerIndex+len := by
        rw [compact_length,hgl]
      obtain ⟨hgw,hgv,hgb,-⟩ := grow_spec h (Nat.le_of_lt hshort) (by omega : b.writerIndex+len < 2^63)
      obtain ⟨hcw,hcv,-,hcb⟩ := compact_spec hgw
      exact ⟨hcw,hcv.trans hgv,by omega⟩
    · rename_i hroom
      rw [if_neg hroom]
      rw [hsum,hneed] at hroom
      obtain ⟨hcw,hcv,-,hcb⟩ := compact_spec h
      exact ⟨hcw,hcv,by omega⟩
  · rename_i hroom
    rw [if_neg hroom]
    exact ⟨h,rfl,by omega⟩

theorem append_spec {b : Buffer} (h : Wf b) {data : List Byte} (hlen : data.length < 2^63)
    (hfit : (b.append data).buffer.length < 2^63) :
    Wf (b.append data) ∧ (b.append data).toStringView = b.toStringView++data := by
  have hfit' : (b.ensureWritableBytes data.length).buffer.length < 2^63 := by
    simpa [append,hasWritten,copyToWrite] using hfit
  obtain ⟨he,hv,hroom⟩ := ensureWritableBytes_spec h hlen hfit'
  obtain ⟨hw,hview,-,-⟩ := write_spec he hroom
  exact ⟨hw,by rw [append,hview,hv]⟩

/-- The bytes a successful `readv` stored: first into the writable room, the rest of
them, left in `extrabuf`, are appended after it. -/
theorem readFd_spec {b : Buffer} (h : Wf b) {xs : List Byte} (hlen : xs.length < 2^63)
    (hfit : (b.readFd (.bytes xs)).1.buffer.length < 2^63) :
    Wf (b.readFd (.bytes xs)).1 ∧ (b.readFd (.bytes xs)).1.toStringView = b.toStringView++xs := by
  have hwr : b.writableBytes = b.buffer.length-b.writerIndex :=
    sizeSub_of_le h.writer_le (by have := h.size_lt; omega)
  have hw := h.writer_le
  have hs := h.size_lt
  by_cases hle : xs.length ≤ b.writableBytes
  · have hb : (b.readFd (.bytes xs)).1 = (b.copyToWrite xs).hasWritten xs.length := by
      simp only [readFd,if_pos hle,List.take_of_length_le hle]
      rfl
    obtain ⟨hw,hv,-,-⟩ := write_spec h hle
    rw [hb]
    exact ⟨hw,hv⟩
  · let first := xs.take b.writableBytes
    have hfirst : first.length = b.writableBytes := by
      rw [List.length_take]
      omega
    have hroom : first.length ≤ b.writableBytes := Nat.le_of_eq hfirst
    obtain ⟨hfw,hfv,-,-⟩ := write_spec h hroom
    have hb : (b.readFd (.bytes xs)).1 =
        ((b.copyToWrite first).hasWritten first.length).append (xs.drop b.writableBytes) := by
      have hend : sizeAdd b.writerIndex first.length = (b.copyToWrite first).buffer.length := by
        rw [hfirst,sizeAdd_of_lt (by omega),copyToWrite,overwrite_length]
        omega
      simp only [readFd,if_neg hle,hasWritten]
      rw [← hend]
      rfl
    rw [hb] at hfit ⊢
    obtain ⟨haw,hav⟩ := append_spec hfw (by rw [List.length_drop]; omega) hfit
    exact ⟨haw,by rw [hav,hfv,List.append_assoc,List.take_append_drop]⟩

/-- Shrinking moves the readable bytes into a fresh buffer with the asked reserve. -/
theorem shrink_spec {b : Buffer} (h : Wf b) {reserve : ℕ}
    (hneed : kCheapPrepend+(b.readableBytes+reserve) < 2^63) :
    Wf (b.shrink reserve) ∧ (b.shrink reserve).toStringView = b.toStringView ∧
      reserve ≤ (b.shrink reserve).writableBytes := by
  have hlen := readableBytes_eq h
  obtain ⟨hcw,hcv⟩ := create_spec (n:=kInitialSize) (by decide)
  obtain ⟨other,ho⟩ : ∃ o, o = (create kInitialSize).ensureWritableBytes (b.readableBytes+reserve) :=
    ⟨_,rfl⟩
  have hfit : other.buffer.length < 2^63 := by
    rw [ho]
    refine Nat.lt_of_le_of_lt (ensureWritableBytes_length_le _ _) ?_
    simp only [create,List.length_replicate]
    exact Nat.max_lt.mpr ⟨by decide,hneed⟩
  have hb : b.shrink reserve = other.append b.toStringView := by
    rw [shrink,sizeAdd_of_lt (by omega),ho]
    rfl
  have hlt : b.readableBytes+reserve < 2^63 := by omega
  obtain ⟨how,hov,hroom⟩ := ensureWritableBytes_spec hcw hlt (by rwa [← ho])
  rw [← ho] at how hov hroom
  have hno : other.append b.toStringView =
      (other.copyToWrite b.toStringView).hasWritten b.toStringView.length := by
    rw [append,ensureWritableBytes,if_neg (by omega)]
  have hdata : b.toStringView.length ≤ other.writableBytes := by omega
  obtain ⟨hww,hwv,-,hwb⟩ := write_spec how hdata
  rw [hb,hno]
  refine ⟨hww,?_,?_⟩
  · rw [hwv,hov,hcv,List.nil_append]
  · rw [hwb]
    omega

end Buffer
end GgLib
