import SuperScalar.Foundation.Wire

structure Cursor where
  data : Bytes
  pos : ℕ
deriving DecidableEq

structure Filled where
  ok : Bool
  len : ℕ
  data : Bytes
deriving DecidableEq

namespace Cursor

open List

-- `none` is a write outside the buffer.
def write (c : Cursor) (bs : Bytes) : Option Cursor :=
  if c.pos + bs.length ≤ c.data.length then
    some ⟨c.data.take c.pos ++ bs ++ c.data.drop (c.pos+bs.length),c.pos + bs.length⟩
  else none

def writeAll (c : Cursor) (pieces : List Bytes) : Option Cursor := pieces.foldlM write c

theorem write_prefix (done piece rest : Bytes) (h : piece.length ≤ rest.length) :
    write ⟨done ++ rest,done.length⟩ piece =
      some ⟨(done++piece) ++ rest.drop piece.length,(done++piece).length⟩ := by
  have hd : (done++rest).drop (done.length+piece.length) = rest.drop piece.length := by
    rw [← drop_drop,drop_left]
  simp [write,h,hd]

theorem writeAll_prefix (pieces : List Bytes) (done rest : Bytes)
    (h : pieces.flatten.length ≤ rest.length) :
    writeAll ⟨done ++ rest,done.length⟩ pieces =
      some ⟨(done++pieces.flatten) ++ rest.drop pieces.flatten.length,
        (done++pieces.flatten).length⟩ := by
  induction pieces generalizing done rest with
  | nil => simp [writeAll]
  | cons piece _ ih =>
    simp only [flatten_cons,length_append] at h
    have hstep := write_prefix done piece rest (by omega)
    have htail := ih (done++piece) (rest.drop piece.length) (by rw [length_drop]; omega)
    simp only [writeAll,foldlM_cons,hstep,Option.bind_eq_bind,Option.bind_some] at htail ⊢
    rw [htail,drop_drop]
    simp [append_assoc]

theorem writeAll_start (pieces : List Bytes) (buf : Bytes)
    (h : pieces.flatten.length ≤ buf.length) :
    writeAll ⟨buf,0⟩ pieces =
      some ⟨pieces.flatten ++ buf.drop pieces.flatten.length,pieces.flatten.length⟩ := by
  simpa using writeAll_prefix pieces [] buf h

end Cursor

namespace Filled

def deliver (bs buf : Bytes) : Filled :=
  if buf.length < bs.length then ⟨false,bs.length,buf⟩
  else ⟨true,bs.length,bs ++ buf.drop bs.length⟩

theorem deliver_writeAll (pieces : List Bytes) (buf : Bytes) (need : ℕ)
    (h : need = pieces.flatten.length) :
    (if buf.length < need then some (⟨false,need,buf⟩ : Filled)
      else (Cursor.writeAll ⟨buf,0⟩ pieces).bind (fun c => some ⟨true,c.pos,c.data⟩)) =
      some (deliver pieces.flatten buf) := by
  subst h
  unfold deliver
  split_ifs with hl
  · rfl
  · rw [Cursor.writeAll_start pieces buf (not_lt.mp hl)]
    rfl

end Filled
