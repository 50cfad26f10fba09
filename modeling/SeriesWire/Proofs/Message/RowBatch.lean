/-
Row batches byte by byte.  `BatchBody` names the parts of a body by their
positions; `decode_shaped` and `decode_of_not_shaped` say which bodies are taken
apart, and that the parts are those.  `RowBatch.whole_read` says that they are
the bodies a batch with something in it is sent as.
-/
import SeriesWire.Message.RowBatch
import SeriesWire.Proofs.Wire.Inverse

namespace SeriesWire

open Bytes

namespace BatchBody

def rowNum (body : Bytes) : Nat := (body.slice 0 4).toNatBE

def colNum (body : Bytes) : Nat := (body.slice 4 2).toNatBE

def column (c : Nat) : Nat := 10 + c * 8

def width (body : Bytes) (c : Nat) : Nat := (body.slice (column c) 4).toNatBE

def offset (body : Bytes) (c : Nat) : Nat := (body.slice (column c + 4) 4).toNatBE

/-- The number of the layout, behind the metadata and the capacity. -/
def tag (body : Bytes) : Int := (body.slice (column (colNum body) + 4) 2).toIntBE

def payload (body : Bytes) : Bytes := body.drop (column (colNum body) + 6)

/-- Cell `r` of column `c`, if the payload is a plain one. -/
def rawCell (body : Bytes) (r c : Nat) : Bytes :=
  (payload body).slice (offset body c + r * width body c) (width body c)

/-- The body has all its metadata, and there is something in the batch. -/
structure Shaped (body : Bytes) : Prop where
  counts : 10 ≤ body.length
  rowNum : 1 ≤ rowNum body
  colNum : 1 ≤ colNum body ∧ colNum body ≤ 4096
  metadata : column (BatchBody.colNum body) + 6 ≤ body.length
  width : ∀ c < BatchBody.colNum body, 1 ≤ width body c

/-- The batch in `body`, whose payload is laid out as `compression` says. -/
def batch (body : Bytes) (compression : Compression) : RowBatch :=
  { rowNum := UInt32.ofNat (rowNum body)
    colNum := UInt16.ofNat (colNum body)
    rowSize := UInt32.ofNat (body.slice 6 4).toNatBE
    columns := (List.range (colNum body)).map fun c =>
      ⟨UInt32.ofNat (width body c), UInt32.ofNat (offset body c)⟩
    capacity := UInt32.ofNat (body.slice (column (colNum body)) 4).toNatBE
    compression
    payload := payload body }

variable {body : Bytes}

theorem toNat_ofNat_slice {start : Nat} (h : start + 4 ≤ body.length) :
    (UInt32.ofNat (body.slice start 4).toNatBE).toNat = (body.slice start 4).toNatBE :=
  UInt32.toNat_ofNat_of_lt' (toNatBE_lt_space (length_slice_of_le h))

/-! ## Columns -/

theorem readColumn_past {c : Nat} (h : column (c + 1) ≤ body.length) :
    RowBatch.readColumn (.past "RowBatch" body (column c)) =
      .ok ⟨UInt32.ofNat (width body c), UInt32.ofNat (offset body c)⟩
        (.past "RowBatch" body (column (c + 1))) := by
  have hnext : column c + 4 + 4 = column (c + 1) := by
    simp only [column]
    omega
  rw [RowBatch.readColumn, Read.bind_ok (Read.u32_past (by omega)),
    Read.bind_ok (Read.u32_past (by omega)), hnext]
  rfl

theorem storageLen_eq_zero {c : Nat} (h : column (c + 1) ≤ body.length) :
    UInt32.ofNat (width body c) = 0 ↔ width body c = 0 := by
  have hroom : column c + 4 ≤ body.length := by
    simp only [column] at h ⊢
    omega
  rw [← UInt32.toNat_inj, width, toNat_ofNat_slice hroom]
  rfl

theorem readColumns_past {first count : Nat} (hroom : column (first + count) ≤ body.length)
    (hwidth : ∀ c, first ≤ c → c < first + count → 1 ≤ width body c) (done : List ColumnBlock) :
    RowBatch.readColumns first done count (.past "RowBatch" body (column first)) =
      .ok (done.reverse ++ (List.range' first count).map fun c =>
          ⟨UInt32.ofNat (width body c), UInt32.ofNat (offset body c)⟩)
        (.past "RowBatch" body (column (first + count))) := by
  induction count generalizing first done with
  | zero =>
    rw [RowBatch.readColumns, List.range'_zero, List.map_nil, List.append_nil, Nat.add_zero]
  | succ count ih =>
    have hnext : column (first + 1) ≤ body.length := by
      simp only [column] at hroom ⊢
      omega
    have hnonzero : ¬UInt32.ofNat (width body first) = 0 := by
      rw [storageLen_eq_zero hnext]
      have := hwidth first (Nat.le_refl _) (by omega)
      omega
    have hrest := @ih (first + 1) (by rwa [show first + 1 + count = first + (count + 1) by omega])
      (fun c hlow hhigh => hwidth c (by omega) (by omega))
    simp only [RowBatch.readColumns, readColumn_past hnext, hnonzero, if_false]
    rw [hrest, List.range'_succ, List.map_cons, List.reverse_cons, List.append_assoc,
      show first + 1 + count = first + (count + 1) by omega]
    rfl

theorem readColumns_zero {first count : Nat} (hroom : column (first + count) ≤ body.length)
    (hzero : ∃ c, first ≤ c ∧ c < first + count ∧ width body c = 0) (done : List ColumnBlock) :
    ∃ cause r, RowBatch.readColumns first done count (.past "RowBatch" body (column first)) =
      .error (.malformed cause) r := by
  induction count generalizing first done with
  | zero =>
    obtain ⟨c, hlow, hhigh, -⟩ := hzero
    omega
  | succ count ih =>
    have hnext : column (first + 1) ≤ body.length := by
      simp only [column] at hroom ⊢
      omega
    simp only [RowBatch.readColumns, readColumn_past hnext]
    by_cases hfirst : UInt32.ofNat (width body first) = 0
    · rw [if_pos hfirst]
      exact ⟨_, _, rfl⟩
    · rw [if_neg hfirst]
      obtain ⟨c, hlow, hhigh, hwidth⟩ := hzero
      have hne : first ≠ c := by
        rintro rfl
        exact hfirst ((storageLen_eq_zero hnext).2 hwidth)
      exact ih (by rwa [show first + 1 + count = first + (count + 1) by omega])
        ⟨c, by omega, by omega, hwidth⟩ _

/-! ## Bodies -/

theorem toInt_ofInt_slice {start : Nat} (h : start + 2 ≤ body.length) :
    (Int16.ofInt (body.slice start 2).toIntBE).toInt = (body.slice start 2).toIntBE :=
  toInt_int16 (fitsInt_of_length (length_slice_of_le h))

theorem toNat_colNum (h : 10 ≤ body.length) :
    (UInt16.ofNat (body.slice 4 2).toNatBE).toNat = colNum body :=
  UInt16.toNat_ofNat_of_lt' (toNatBE_lt_space (length_slice_of_le (by omega)))

def readColumnsOf (body : Bytes) : ReadM RowBatch := do
  let columns ← RowBatch.readColumns 0 [] (colNum body)
  let capacity ← Read.u32
  match Compression.ofTag (← Read.i16).toInt with
  | .error e => throw e
  | .ok compression =>
    return {
      rowNum := UInt32.ofNat (rowNum body)
      colNum := UInt16.ofNat (colNum body)
      rowSize := UInt32.ofNat (body.slice 6 4).toNatBE
      columns, capacity, compression, payload := ← Read.rest }

theorem read_short (h : body.length < 10) :
    ∃ cause r, RowBatch.read (.past "RowBatch" body 0) = .error (.malformed cause) r := by
  have hshort : (Reader.past "RowBatch" body 0).remaining < RowBatch.countsLen := h
  rw [RowBatch.read, Read.bind_ok (Read.get_ok _)]
  dsimp only
  rw [if_pos hshort]
  exact ⟨_, _, rfl⟩

/-- The counts are checked in the order in which they stand. -/
theorem read_past (h : 10 ≤ body.length) :
    RowBatch.read (.past "RowBatch" body 0) =
      if rowNum body = 0 then .error (.malformed (.batch .rowCount)) (.past "RowBatch" body 10)
      else if colNum body = 0 ∨ RowBatch.maxColumns < colNum body then
        .error (.malformed (.batch (.columnCount (colNum body) RowBatch.maxColumns)))
          (.past "RowBatch" body 10)
      else if body.length < column (colNum body) + 6 then
        .error (.malformed (.batch (.metadata (colNum body) (RowBatch.metadataLen (colNum body))
          (body.length - 10)))) (.past "RowBatch" body 10)
      else readColumnsOf body (.past "RowBatch" body (column 0)) := by
  have hlong : ¬(Reader.past "RowBatch" body 0).remaining < RowBatch.countsLen := by
    show ¬body.length < 10
    omega
  have hrows : UInt32.ofNat (body.slice 0 4).toNatBE = 0 ↔ rowNum body = 0 := by
    rw [← UInt32.toNat_inj, toNat_ofNat_slice (by omega)]
    rfl
  have hroom : (!(Reader.past "RowBatch" body 10).has (RowBatch.metadataLen (colNum body))) = true ↔
      body.length < column (colNum body) + 6 := by
    rw [Reader.has, Bool.not_eq_true', decide_eq_false_iff_not]
    simp only [Reader.remaining, Reader.past, List.length_drop, RowBatch.metadataLen, column]
    omega
  rw [RowBatch.read, Read.bind_ok (Read.get_ok _)]
  dsimp only
  rw [if_neg hlong, Read.bind_ok (Read.u32_past (by omega)),
    Read.bind_ok (Read.u16_past (by omega)), Read.bind_ok (Read.u32_past (by omega)),
    Nat.zero_add, toNat_colNum h]
  by_cases hnone : rowNum body = 0
  · rw [if_pos (hrows.2 hnone), if_pos hnone]
    rfl
  rw [if_neg (fun hzero => hnone (hrows.1 hzero)), if_neg hnone]
  by_cases hcols : colNum body = 0 ∨ RowBatch.maxColumns < colNum body
  · rw [if_pos hcols, if_pos hcols]
    rfl
  rw [if_neg hcols, if_neg hcols, Read.bind_ok (Read.get_ok _)]
  by_cases hshort : body.length < column (colNum body) + 6
  · have hremaining : (Reader.past "RowBatch" body 10).remaining = body.length - 10 :=
      List.length_drop
    rw [if_pos (hroom.2 hshort), if_pos hshort, ← hremaining]
    rfl
  · rw [if_neg (fun hfull => hshort (hroom.1 hfull)), if_neg hshort]
    rfl

theorem readColumnsOf_past (hroom : column (colNum body) + 6 ≤ body.length)
    (hwidth : ∀ c < colNum body, 1 ≤ width body c) :
    readColumnsOf body (.past "RowBatch" body (column 0)) =
      match Compression.ofTag (tag body) with
      | .error e => .error e (.past "RowBatch" body (column (colNum body) + 4 + 2))
      | .ok c => .ok (batch body c) (.past "RowBatch" body (column (colNum body) + 4 + 2)) := by
  have hcolumns := @readColumns_past body 0 (colNum body) (by rw [Nat.zero_add]; omega)
    (fun c _ hc => hwidth c (by omega)) []
  rw [Nat.zero_add] at hcolumns
  rw [readColumnsOf, Read.bind_ok hcolumns, Read.bind_ok (Read.u32_past (by omega)),
    Read.bind_ok (Read.i16_past (by omega)), toInt_ofInt_slice (by omega)]
  show (match Compression.ofTag (tag body) with
    | .error e => throw e
    | .ok compression => _ : ReadM RowBatch) _ = _
  cases Compression.ofTag (tag body) with
  | error e => rfl
  | ok c =>
    rw [List.reverse_nil, List.nil_append, ← List.range_eq_range']
    rfl

theorem ofTag_error {n : Int} {e : WireError} (h : Compression.ofTag n = .error e) :
    e = .malformed (.batch (.compression n)) := by
  unfold Compression.ofTag at h
  split at h
  · cases h
  · exact (Except.error.inj h).symm

theorem decode_shaped {c : Compression} (h : Shaped body)
    (htag : Compression.ofTag (tag body) = .ok c) :
    RowBatch.decode body = .ok (batch body c) := by
  have hcols : ¬(colNum body = 0 ∨ RowBatch.maxColumns < colNum body) := by
    have := h.colNum
    rw [RowBatch.maxColumns]
    omega
  have hrows := h.rowNum
  have hmetadata := h.metadata
  rw [RowBatch.decode, Read.run_eq, read_past h.counts, if_neg (by omega), if_neg hcols,
    if_neg (by omega), readColumnsOf_past h.metadata h.width, htag]

theorem decode_of_not_shaped (h : ¬(Shaped body ∧ ∃ c, Compression.ofTag (tag body) = .ok c)) :
    ∃ cause, RowBatch.decode body = .error (.malformed cause) := by
  suffices hread : ∃ cause r,
      RowBatch.read (.past "RowBatch" body 0) = .error (.malformed cause) r by
    obtain ⟨cause, r, hread⟩ := hread
    refine ⟨cause, ?_⟩
    rw [RowBatch.decode, Read.run_eq, hread]
  by_cases hcounts : body.length < 10
  · exact read_short hcounts
  rw [read_past (by omega)]
  by_cases hrows : rowNum body = 0
  · rw [if_pos hrows]
    exact ⟨_, _, rfl⟩
  rw [if_neg hrows]
  by_cases hcols : colNum body = 0 ∨ RowBatch.maxColumns < colNum body
  · rw [if_pos hcols]
    exact ⟨_, _, rfl⟩
  rw [if_neg hcols]
  by_cases hmetadata : body.length < column (colNum body) + 6
  · rw [if_pos hmetadata]
    exact ⟨_, _, rfl⟩
  rw [if_neg hmetadata]
  by_cases hwidth : ∀ c < colNum body, 1 ≤ width body c
  · rw [readColumnsOf_past (by omega) hwidth]
    rw [RowBatch.maxColumns] at hcols
    have hshaped : Shaped body := ⟨by omega, by omega, by omega, by omega, hwidth⟩
    cases htag : Compression.ofTag (tag body) with
    | error e => exact ⟨_, _, congrArg (EStateM.Result.error · _) (ofTag_error htag)⟩
    | ok c => exact absurd ⟨hshaped, c, htag⟩ h
  · have hzero : ∃ c, 0 ≤ c ∧ c < 0 + colNum body ∧ width body c = 0 := by
      simp only [Classical.not_forall, Nat.not_le] at hwidth
      obtain ⟨c, hc, hlt⟩ := hwidth
      exact ⟨c, Nat.zero_le c, by omega, by omega⟩
    obtain ⟨cause, r, hcause⟩ := readColumns_zero (by rw [Nat.zero_add]; omega) hzero []
    refine ⟨cause, r, ?_⟩
    rw [readColumnsOf, Read.bind_error hcause]

end BatchBody

/-! ## Batches that were written -/

namespace RowBatch

open Read

/-- There are rows and columns, each column has its entry, and none is of width
zero. -/
structure Proper (b : RowBatch) : Prop where
  rowNum : b.rowNum ≠ 0
  colNum : 1 ≤ b.colNum.toNat ∧ b.colNum.toNat ≤ 4096
  columns : b.columns.length = b.colNum.toNat
  storageLen : ∀ c ∈ b.columns, c.storageLen ≠ 0

theorem exact_readColumn : Exact (fun _ => True) readColumn columnFields := by
  have hfields : columnFields = fun c =>
      [Field.u32 c.storageLen] ++ ([Field.u32 c.offset] ++ []) := rfl
  rw [hfields]
  refine exact_u32.bind ColumnBlock.storageLen (fun _ _ => trivial) fun storageLen _ => ?_
  refine exact_u32.bind ColumnBlock.offset (fun _ _ => trivial) fun offset _ => ?_
  refine exact_pure fun c => ?_
  constructor
  · rintro ⟨⟨-, rfl⟩, rfl⟩
    rfl
  · rintro rfl
    exact ⟨⟨trivial, rfl⟩, rfl⟩

theorem gives_readColumns {columns : List ColumnBlock} {bs : Bytes} (rest : Bytes)
    (hwidth : ∀ c ∈ columns, c.storageLen ≠ 0)
    (h : Field.encodeAll (columns.flatMap columnFields) = .ok bs)
    (first : Nat) (done : List ColumnBlock) :
    Gives (readColumns first done columns.length) bs rest (done.reverse ++ columns) := by
  induction columns generalizing bs first done with
  | nil =>
    cases h
    rw [List.append_nil]
    exact fun _ _ => rfl
  | cons c columns ih =>
    obtain ⟨hc, hwidth⟩ := List.forall_mem_cons.1 hwidth
    rw [List.flatMap_cons] at h
    obtain ⟨head, tail, hhead, htail, rfl⟩ := Field.encodeAll_append_ok.1 h
    intro subject position
    have hfirst := exact_readColumn.gives trivial hhead (tail ++ rest) subject position
    have hrest := ih hwidth htail (first + 1) (c :: done) subject (position + head.length)
    rw [List.reverse_cons, List.append_assoc] at hrest
    rw [List.length_cons, List.append_assoc]
    simp only [readColumns, hfirst]
    rw [if_neg hc, hrest, List.length_append, Nat.add_assoc]
    rfl

theorem spells_readColumns {first count : Nat} {done columns : List ColumnBlock} {r r' : Reader}
    (h : readColumns first done count r = .ok columns r') :
    ∃ behind bs, columns = done.reverse ++ behind ∧ behind.length = count ∧
      (∀ c ∈ behind, c.storageLen ≠ 0) ∧
      Field.encodeAll (behind.flatMap columnFields) = .ok bs ∧ r.rest = bs ++ r'.rest := by
  induction count generalizing first done r with
  | zero =>
    cases h
    exact ⟨[], [], (List.append_nil _).symm, rfl, fun _ hc => absurd hc List.not_mem_nil, rfl, rfl⟩
  | succ count ih =>
    simp only [readColumns] at h
    split at h
    · cases h
    next c r₁ hread =>
      split at h
      · cases h
      next hc =>
        obtain ⟨-, head, hhead, hrest⟩ := exact_readColumn.spells hread
        obtain ⟨behind, tail, hcolumns, hlen, hwidth, htail, hrest'⟩ := ih h
        rw [List.reverse_cons, List.append_assoc, List.singleton_append] at hcolumns
        refine ⟨c :: behind, head ++ tail, hcolumns, congrArg (· + 1) hlen,
          List.forall_mem_cons.2 ⟨hc, hwidth⟩, ?_, ?_⟩
        · rw [List.flatMap_cons]
          exact Field.encodeAll_append_ok.2 ⟨head, tail, hhead, htail, rfl⟩
        · rw [hrest, hrest', List.append_assoc]

theorem exact_readColumns (count : Nat) :
    Exact (fun columns => columns.length = count ∧ ∀ c ∈ columns, c.storageLen ≠ 0)
      (readColumns 0 [] count) fun columns => columns.flatMap columnFields where
  gives := by
    rintro columns bs ⟨rfl, hwidth⟩ h rest
    exact gives_readColumns rest hwidth h 0 []
  spells := by
    intro r r' columns h
    obtain ⟨_, bs, rfl, hlen, hwidth, hbs, hrest⟩ := spells_readColumns h
    exact ⟨⟨hlen, hwidth⟩, bs, hbs, hrest⟩

theorem ofTag_eq_ok_iff {n : Int16} {c : Compression} :
    Compression.ofTag n.toInt = .ok c ↔ Int16.ofInt c.tag = n := by
  constructor
  · intro h
    rw [Compression.ofTag] at h
    split at h
    next hfound =>
      cases h
      rw [eq_of_beq (List.find?_some (p := (Compression.tag · == n.toInt)) hfound),
        Int16.ofInt_toInt]
    next => cases h
  · rintro rfl
    cases c with
    | plain => rfl
    | block codec => cases codec <;> rfl

theorem length_of_encodeAll_columns {columns : List ColumnBlock} {bs : Bytes}
    (h : Field.encodeAll (columns.flatMap columnFields) = .ok bs) :
    bs.length = columns.length * 8 := by
  refine Field.length_of_encodeAll_flatMap ?_ h
  intro c written hc
  obtain ⟨_, _, hlen, hoffset, rfl⟩ := Field.encodeAll_cons_ok.1 hc
  rw [Field.encode_u32_ok] at hlen
  rw [Field.encodeAll_singleton_ok, Field.encode_u32_ok] at hoffset
  rw [List.length_append, hlen, hoffset, length_ofNatBE, length_ofNatBE]

theorem countsLen_le {rowNum rowSize : UInt32} {colNum : UInt16} {behind : List Field} {bs : Bytes}
    (h : Field.encodeAll ([.u32 rowNum] ++ ([.u16 colNum] ++ ([.u32 rowSize] ++ behind))) =
      .ok bs) : countsLen ≤ bs.length := by
  simp only [Field.encodeAll_append_ok, Field.encodeAll_singleton_ok, Field.encode_u32_ok,
    Field.encode_u16_ok] at h
  obtain ⟨_, _, rfl, ⟨_, _, rfl, ⟨_, _, rfl, -, rfl⟩, rfl⟩, rfl⟩ := h
  simp only [List.length_append, length_ofNatBE, countsLen]
  omega

theorem metadataLen_le {columns : List ColumnBlock} {capacity : UInt32} {tag : Int16}
    {behind : List Field} {bs : Bytes}
    (h : Field.encodeAll (columns.flatMap columnFields ++ ([.u32 capacity] ++ ([.i16 tag] ++
      behind))) = .ok bs) : metadataLen columns.length ≤ bs.length := by
  obtain ⟨metadata, _, hmetadata, htrailer, rfl⟩ := Field.encodeAll_append_ok.1 h
  have hlen := length_of_encodeAll_columns hmetadata
  simp only [Field.encodeAll_append_ok, Field.encodeAll_singleton_ok, Field.encode_u32_ok,
    Field.encode_i16_ok] at htrailer
  obtain ⟨_, _, rfl, ⟨_, _, rfl, -, rfl⟩, rfl⟩ := htrailer
  simp only [List.length_append, length_ofNatBE, length_ofIntBE, metadataLen]
  omega

theorem whole_read : Whole Proper read fields := by
  have hfields : fields = fun b => [Field.u32 b.rowNum] ++ ([Field.u16 b.colNum] ++
      ([Field.u32 b.rowSize] ++ (b.columns.flatMap columnFields ++ ([Field.u32 b.capacity] ++
        ([Field.i16 (Int16.ofInt b.compression.tag)] ++ [Field.bytes b.payload]))))) := by
    funext b
    simp only [fields, List.cons_append, List.nil_append]
  rw [hfields, read]
  dsimp only
  refine Whole.peek ?_ ?_
  rotate_left
  · intro b r _ h
    exact Nat.not_lt_of_le (countsLen_le h)
  refine exact_u32.bind_whole RowBatch.rowNum (fun _ _ => trivial) fun rowNum _ => ?_
  refine exact_u16.bind_whole RowBatch.colNum (fun _ _ => trivial) fun colNum _ => ?_
  refine exact_u32.bind_whole RowBatch.rowSize (fun _ _ => trivial) fun rowSize _ => ?_
  refine Whole.checked ?_ fun hrows => ?_
  · rintro b ⟨⟨⟨hb, rfl⟩, -⟩, -⟩
    exact hb.rowNum
  refine Whole.checked ?_ fun hcols => ?_
  · rintro b ⟨⟨⟨hb, -⟩, rfl⟩, -⟩
    have := hb.colNum
    rw [maxColumns]
    omega
  refine Whole.peek ?_ ?_
  rotate_left
  · rintro b r ⟨⟨⟨hb, -⟩, rfl⟩, -⟩ h
    have hroom := metadataLen_le h
    rw [hb.columns] at hroom
    rw [Reader.has, decide_eq_true (show _ ≤ r.remaining from hroom)]
    decide
  refine (exact_readColumns _).bind_whole RowBatch.columns ?_ fun columns hcolumns => ?_
  · rintro b ⟨⟨⟨hb, -⟩, rfl⟩, -⟩
    exact ⟨hb.columns, hb.storageLen⟩
  refine exact_u32.bind_whole RowBatch.capacity (fun _ _ => trivial) fun capacity _ => ?_
  refine exact_i16.bind_whole (fun b : RowBatch => Int16.ofInt b.compression.tag)
    (fun _ _ => trivial) fun n _ => ?_
  cases htag : Compression.ofTag n.toInt with
  | error e =>
    refine whole_throw ?_
    rintro b ⟨-, htag'⟩
    rw [ofTag_eq_ok_iff.2 htag'] at htag
    cases htag
  | ok compression =>
    refine whole_rest fun b payload => ?_
    constructor
    · rintro ⟨⟨⟨⟨⟨⟨⟨-, rfl⟩, rfl⟩, rfl⟩, rfl⟩, rfl⟩, htag'⟩, rfl⟩
      cases htag.symm.trans (ofTag_eq_ok_iff.2 htag')
      rfl
    · rintro rfl
      rw [maxColumns] at hcols
      have hcount : 1 ≤ colNum.toNat ∧ colNum.toNat ≤ 4096 := by omega
      exact ⟨⟨⟨⟨⟨⟨⟨⟨hrows, hcount, hcolumns.1, hcolumns.2⟩, rfl⟩, rfl⟩, rfl⟩, rfl⟩, rfl⟩,
        ofTag_eq_ok_iff.1 htag⟩, rfl⟩

/-- A batch with something in it is read back from the fields it is written as. -/
theorem decode_of_encodeAll {b : RowBatch} {body : Bytes} (hb : b.Proper)
    (h : Field.encodeAll b.fields = .ok body) : decode body = .ok b :=
  whole_read.run_eq_ok_iff.2 ⟨hb, h⟩

theorem fits_fields (b : RowBatch) : ∀ f ∈ b.fields, f.Fits := by
  have hcolumns : ∀ f ∈ b.columns.flatMap columnFields, f.Fits :=
    List.forall_mem_flatMap.2 fun _ _ =>
      List.forall_mem_cons.2 ⟨trivial, List.forall_mem_singleton.2 trivial⟩
  simp only [fields, List.forall_mem_append, List.forall_mem_cons, Field.Fits, List.not_mem_nil,
    false_implies, implies_true, and_true, true_and]
  exact hcolumns

theorem encode_eq {b : RowBatch} (h : b.Proper) : b.encode = send tag b.fields :=
  if_neg (not_not_intro h.columns)

/-- A batch in which there is something is sent, and read as it was, and a batch
that was read is sent as the body it was read from. -/
theorem inverse_rowBatch : Inverse Proper tag encode decode :=
  .of_whole whole_read (fun b => (and_iff_left b.fits_fields).symm) (fun _ => encode_eq) _

theorem sent_compressed_column :
    decode [0, 0, 0, 2, 0, 1, 0, 0, 0, 8, 0, 0, 0, 8, 0, 0, 0, 0, 0, 0, 0, 16, 0, 4, 21, 9] =
      .ok ⟨2, 1, 8, [⟨8, 0⟩], 16, .lz4, [21, 9]⟩ ∧
    encode ⟨2, 1, 8, [⟨8, 0⟩], 16, .lz4, [21, 9]⟩ [] =
      .ok () [86, 0, 0, 0, 30, 0, 0, 0, 2, 0, 1, 0, 0, 0, 8, 0, 0, 0, 8, 0, 0, 0, 0, 0, 0, 0, 16,
        0, 4, 21, 9] := by
  have hread : decode [0, 0, 0, 2, 0, 1, 0, 0, 0, 8, 0, 0, 0, 8, 0, 0, 0, 0, 0, 0, 0, 16, 0, 4,
      21, 9] = .ok ⟨2, 1, 8, [⟨8, 0⟩], 16, .lz4, [21, 9]⟩ := rfl
  exact ⟨hread, (inverse_rowBatch.encode_decode hread).2 []⟩

end RowBatch
end SeriesWire
