import LinuxNote.Base.SectorChain
import LinuxNote.Base.StructPack

/-!
# The file around a workbook

xlwt writes the records of a workbook as the one stream of a file of sectors, with a table of the
sectors, a table of the sectors of that table, and a directory.

## Main definitions

* `satCounts`, `buildSat`, `buildDirectory`, `buildHeader`, `save` — the file.
* `readDoc` — the stream that is found in a file.

## Main results

* `save_least` — **a file has as few sectors as it can**.
* `save_right` — **the stream is found in the file**, with its padding, whenever its length fits in
  the directory, and otherwise nothing is written.
-/

namespace LinuxNote.Xls

open StructPack SectorChain

/-! ### The marks of sectors -/

/-- `SID_FREE_SECTOR`. -/
def sidFreeSector : ℤ := -1

/-- `SID_END_OF_CHAIN`. -/
def sidEndOfChain : ℤ := -2

/-- `SID_USED_BY_SAT`. -/
def sidUsedBySat : ℤ := -3

/-- `SID_USED_BY_MSAT`. -/
def sidUsedByMsat : ℤ := -4

/-! ### The directory -/

/-- The codes of ASCII text in UTF-16: two bytes for each character. -/
def utf16 (text : List Char) : List UInt8 := text.flatMap fun c => le 2 c.toNat

/-- The name of the first entry, which stands for the document as a whole. -/
def rootName : List UInt8 :=
  utf16 ['R', 'o', 'o', 't', ' ', 'E', 'n', 't', 'r', 'y', Char.ofNat 0]

/-- The name of the stream, by which a reader finds the workbook. -/
def bookName : List UInt8 := utf16 ['W', 'o', 'r', 'k', 'b', 'o', 'o', 'k', Char.ofNat 0]

/-- The fields of an entry of the directory, 128 bytes in all.  The name is filled up with zeros. -/
def dentryFields (name : List UInt8) (type : ℕ) (didRoot startSid : ℤ) (streamSz : ℕ) :
    List Item :=
  [.s (name ++ List.replicate (64 - name.length) 0), .H name.length, .B type] ++
    ([.B 0x01, .l (-1), .l (-1), .l didRoot] ++ List.replicate 9 (.L 0)) ++
      [.l startSid, .L streamSz, .L 0]

/-- An entry of the directory, unless one of its numbers is out of range. -/
def dentry (name : List UInt8) (type : ℕ) (didRoot startSid : ℤ) (streamSz : ℕ) :
    Option (List UInt8) :=
  pack (dentryFields name type didRoot startSid streamSz)

/-- `_build_directory`: the root, the stream of the workbook, and two empty entries, which fill the
sector. -/
def buildDirectory (bookStreamLen : ℕ) : Option (List UInt8) := do
  let root ← dentry rootName 0x05 1 (-2) 0
  let book ← dentry bookName 0x02 (-1) 0 bookStreamLen
  let padding ← dentry [] 0x00 (-1) (-2) 0
  some (root ++ (book ++ (padding ++ padding)))

/-! ### The tables of sectors -/

/-- The loop that counts the sectors of the tables: all sectors, those of the two tables, and what
the tables of the second kind have room for. -/
def satCounts (totalSectCount satSectCount msatSectCount satSectCountLimit : ℕ) : ℕ × ℕ :=
  if totalSectCount > 128 * satSectCount ∨ satSectCount > satSectCountLimit then
    if satSectCount + 1 > satSectCountLimit then
      satCounts (totalSectCount + 1 + 1) (satSectCount + 1) (msatSectCount + 1)
        (satSectCountLimit + 127)
    else satCounts (totalSectCount + 1) (satSectCount + 1) msatSectCount satSectCountLimit
  else (satSectCount, msatSectCount)
termination_by (totalSectCount - 128 * satSectCount) + (satSectCount - satSectCountLimit)
decreasing_by all_goals omega

/-- A loop that takes the sectors before `stop` and marks them: the table, the sectors, and the
sector after them. -/
def markTo (value : ℕ → ℤ) (stop sect : ℕ) (sat : List ℤ) : Option (List ℤ × List ℕ × ℕ) :=
  (fill value sect (stop - sect) sat).map fun r => (r.1, r.2, sect + (stop - sect))

/-- The sectors of a stream, of which each is marked with the next one and the last as the end. -/
def chainTo (stop sect : ℕ) (sat : List ℤ) : Option (List ℤ × List ℕ × ℕ) := do
  let (sat, sects, sect) ← markTo (fun sect => sect + 1) (stop - 1) sect sat
  let sat ← put sat sect sidEndOfChain
  some (sat, sects ++ [sect], sect + 1)

/-- The part of the second table in the header. -/
def buildMsat1st (satSect : List ℕ) : List ℤ :=
  ((List.range 109).zip satSect).foldl (fun msat p => msat.set p.1 p.2)
    (List.replicate 109 sidFreeSector)

/-- The loop over the sectors that are left, with a link at the end of each sector; the last link
stays the end of the chain. -/
def fillMsat2nd (satSect msatSect2nd : List ℕ) (i msatSect sidNum : ℕ) (msat2nd : List ℤ) :
    Option (List ℤ) :=
  if hi : i < satSect.length then
    if (sidNum + 1) % 128 = 0 then
      if hmsat : msatSect + 1 < msatSect2nd.length then
        match put msat2nd sidNum msatSect2nd[msatSect + 1] with
        | none => none
        | some msat2nd => fillMsat2nd satSect msatSect2nd i (msatSect + 1) (sidNum + 1) msat2nd
      else fillMsat2nd satSect msatSect2nd i (msatSect + 1) (sidNum + 1) msat2nd
    else
      match put msat2nd sidNum satSect[i] with
      | none => none
      | some msat2nd => fillMsat2nd satSect msatSect2nd (i + 1) msatSect (sidNum + 1) msat2nd
  else some msat2nd
termination_by 2 * (satSect.length - i) + if (sidNum + 1) % 128 = 0 then 1 else 0
decreasing_by all_goals (split <;> omega)

/-- The part of the second table in its own sectors. -/
def buildMsat2nd (satSect msatSect2nd : List ℕ) : Option (List ℤ) :=
  let free := List.replicate (128 * msatSect2nd.length) sidFreeSector
  fillMsat2nd satSect msatSect2nd 109 0 0
    (if msatSect2nd.length > 0 then free.set (free.length - 1) sidEndOfChain else free)

/-- What `_build_sat` leaves: the sectors of each part of the file, and the two tables that say
where they are. -/
structure SatTables where
  bookStreamSect : List ℕ
  msatSect2nd : List ℕ
  satSect : List ℕ
  dirStreamSect : List ℕ
  sat : List ℤ
  msat1st : List ℤ
  msat2nd : List ℤ

/-- `_build_sat`: the stream, the sectors of the two tables and the directory are laid out one
behind the other, and the tables filled in. -/
def buildSat (bookSectCount dirSectCount : ℕ) : Option SatTables := do
  let (satSectCount, msatSectCount) := satCounts (bookSectCount + dirSectCount) 0 0 109
  let sat := List.replicate (128 * satSectCount) sidFreeSector
  let (sat, bookStreamSect, sect) ← chainTo bookSectCount 0 sat
  let (sat, msatSect2nd, sect) ←
    markTo (fun _ => sidUsedByMsat) (bookSectCount + msatSectCount) sect sat
  let (sat, satSect, sect) ←
    markTo (fun _ => sidUsedBySat) (bookSectCount + msatSectCount + satSectCount) sect sat
  let (sat, dirStreamSect, _) ←
    chainTo (bookSectCount + msatSectCount + satSectCount + dirSectCount) sect sat
  let msat2nd ← buildMsat2nd satSect msatSect2nd
  some ⟨bookStreamSect, msatSect2nd, satSect, dirStreamSect, sat, buildMsat1st satSect, msat2nd⟩

/-! ### The file -/

/-- The mark of the format. -/
def docMagic : List UInt8 := [0xD0, 0xCF, 0x11, 0xE0, 0xA1, 0xB1, 0x1A, 0xE1]

/-- The fields of a header, up to the part of the second table that is in it. -/
def headerFields (satCount : ℕ) (dirStartSid msatStartSid : ℤ) (msatCount : ℕ) : List Item :=
  [.s docMagic, .s (List.replicate 16 0), .s [0x3E, 0x00], .s [0x03, 0x00], .s [0xFE, 0xFF]] ++
    [.H 9] ++ [.H 6, .s (List.replicate 10 0)] ++ [.L satCount, .l dirStartSid] ++
      [.s (List.replicate 4 0)] ++ [.L 0x1000] ++ [.l (-2), .L 0] ++ [.l msatStartSid, .L msatCount]

/-- `_build_header`.  It is an error when a count does not fit in its field. -/
def buildHeader (t : SatTables) : Option (List UInt8) := do
  let dirStartSid ← t.dirStreamSect.head?
  let msatStartSid := (t.msatSect2nd.head?.map Int.ofNat).getD (-2)
  pack (headerFields t.satSect.length dirStartSid msatStartSid t.msatSect2nd.length)

/-- The padding of the stream, up to a multiple of 4096 bytes.  A stream that has such a length
already gets as many bytes more. -/
def padding (stream : List UInt8) : List UInt8 :=
  List.replicate (0x1000 - stream.length % 0x1000) 0

/-- `save`: the bytes of the file, or an error when a field of it is too large for its place. -/
def save (stream : List UInt8) : Option (List UInt8) := do
  let bookStreamLen := stream.length + (padding stream).length
  let dirStream ← buildDirectory bookStreamLen
  let t ← buildSat (bookStreamLen >>> 9) (dirStream.length >>> 9)
  let packedSat ← pack (t.sat.map .l)
  let packedMsat1st ← pack (t.msat1st.map .l)
  let packedMsat2nd ← pack (t.msat2nd.map .l)
  let header ← buildHeader t
  some (header ++ (packedMsat1st ++ (stream ++ (padding stream ++ (packedMsat2nd ++
    (packedSat ++ dirStream))))))

/-! ### What is found in a file -/

/-- What a header says: how many sectors the tables have, where the directory and the rest of the
second table start, and how long a stream has to be. -/
structure DocHeader where
  satCount : ℕ
  dirStart : ℤ
  minSize : ℕ
  msatStart : ℤ
  msatCount : ℕ
  msat : List ℤ

/-- What a header says after its first 44 bytes. -/
def readCounts (bs : List UInt8) : Option DocHeader := do
  let (satCount, rest) ← readU 4 bs
  let (dirStart, rest) ← readI 4 rest
  let (minSize, rest) ← readU 4 (rest.drop 4)
  let (msatStart, rest) ← readI 4 (rest.drop 8)
  let (msatCount, rest) ← readU 4 rest
  let msat ← readIs 109 rest
  some ⟨satCount, dirStart, minSize, msatStart, msatCount, msat⟩

/-- The header of a file of sectors of 512 bytes. -/
def readHeader (file : List UInt8) : Option DocHeader :=
  if file.take 8 ≠ docMagic then none
  else do
    let (shift, _) ← readU 2 (file.drop 30)
    if shift ≠ 9 then none else readCounts (file.drop 44)

/-- The sectors after the header, which takes the room of one. -/
def body (file : List UInt8) : List UInt8 := file.drop 512

/-- The second table in its own sectors, of which the last entry is the next sector. -/
def followMsat (sectors : List UInt8) : ℕ → ℤ → Option (List ℤ)
  | 0, _ => none
  | fuel + 1, sid =>
    if sid = sidEndOfChain then some []
    else if sid < 0 then none
    else do
      let entries ← readIs 128 (fromSector 512 sectors sid.toNat)
      let next ← entries[127]?
      let rest ← followMsat sectors fuel next
      some (entries.take 127 ++ rest)

/-- The first table, from its sectors, in the order in which the second one gives them. -/
def readSat (sectors : List UInt8) : List ℕ → Option (List ℤ)
  | [] => some []
  | sid :: sids => do
    let entries ← readIs 128 (fromSector 512 sectors sid)
    let rest ← readSat sectors sids
    some (entries ++ rest)

/-- What an entry of the directory says: the name, the kind, the first sector and the size. -/
def readEntry (bs : List UInt8) : Option (List UInt8 × ℕ × ℤ × ℕ) := do
  let (nameSz, rest) ← readU 2 (bs.drop 64)
  let (type, rest) ← readU 1 rest
  let (startSid, rest) ← readI 4 (rest.drop 49)
  let (streamSz, _) ← readU 4 rest
  some (bs.take nameSz, type, startSid, streamSz)

/-- The stream of a name, among as many entries as the number says. -/
def findStream (name : List UInt8) : ℕ → List UInt8 → Option (ℤ × ℕ)
  | 0, _ => none
  | n + 1, bs => do
    let (entryName, type, startSid, streamSz) ← readEntry bs
    if type = 0x02 ∧ entryName = name then some (startSid, streamSz)
    else findStream name n (bs.drop 128)

/-- The bytes of a stream: the sectors of its chain, one behind the other. -/
def readStream (sectors : List UInt8) (sat : List ℤ) (startSid : ℤ) : Option (List UInt8) :=
  (follow sat sidEndOfChain (sat.length + 1) startSid).map fun sids =>
    sids.flatMap (sector 512 sectors)

/-- The stream of a workbook, when it is not so small that it is elsewhere.  The reader follows the
chains of the tables, as others than the writer would. -/
def readDoc (file : List UInt8) : Option (List UInt8) := do
  let header ← readHeader file
  let msat2nd ← followMsat (body file) (header.msatCount + 1) header.msatStart
  let satSect := ((header.msat ++ msat2nd).filter (0 ≤ ·)).map Int.toNat
  if satSect.length ≠ header.satCount then none
  else do
    let sat ← readSat (body file) satSect
    let dir ← readStream (body file) sat header.dirStart
    let (startSid, streamSz) ← findStream bookName (dir.length / 128) dir
    if streamSz < header.minSize then none
    else do
      let stream ← readStream (body file) sat startSid
      if stream.length < streamSz then none else some (stream.take streamSz)

/-! ### How many sectors the tables take -/

/-- The tables of so many sectors have room for `n` sectors and their own, as each table has to say
where itself is, too. -/
structure Enough (n satSectCount msatSectCount : ℕ) : Prop where
  sat : n + satSectCount + msatSectCount ≤ 128 * satSectCount
  msat : satSectCount ≤ 109 + 127 * msatSectCount

/-- The least of them: no smaller number of sectors is enough, for either table. -/
structure Least (n satSectCount msatSectCount : ℕ) : Prop where
  enough : Enough n satSectCount msatSectCount
  le : ∀ s m, Enough n s m → satSectCount ≤ s ∧ msatSectCount ≤ m

/-- The loop counts up, and never past the least numbers. -/
theorem satCounts_loop {n total s m limit : ℕ} (htotal : total = n + s + m)
    (hlimit : limit = 109 + 127 * m) (hs : s ≤ limit)
    (hle : ∀ s' m', Enough n s' m' → s ≤ s' ∧ m ≤ m') :
    Least n (satCounts total s m limit).1 (satCounts total s m limit).2 := by
  induction total, s, m, limit using satCounts.induct with
  | case1 total s m limit hguard hover ih =>
    rw [satCounts, if_pos hguard, if_pos hover]
    refine ih (by omega) (by omega) (by omega) fun s' m' henough => ?_
    obtain ⟨hs', hm'⟩ := hle s' m' henough
    obtain ⟨hsat, hmsat⟩ := henough
    omega
  | case2 total s m limit hguard hover ih =>
    rw [satCounts, if_pos hguard, if_neg hover]
    refine ih (by omega) hlimit (by omega) fun s' m' henough => ?_
    obtain ⟨hs', hm'⟩ := hle s' m' henough
    obtain ⟨hsat, hmsat⟩ := henough
    omega
  | case3 total s m limit hguard =>
    rw [satCounts, if_neg hguard]
    exact ⟨⟨by omega, by omega⟩, hle⟩

/-- The tables take as few sectors as they can, for any number of other sectors. -/
theorem satCounts_least (n : ℕ) : Least n (satCounts n 0 0 109).1 (satCounts n 0 0 109).2 :=
  satCounts_loop rfl rfl (Nat.zero_le _) fun s' m' _ => ⟨Nat.zero_le s', Nat.zero_le m'⟩

/-- There is no sector of the second table that could be left out. -/
theorem Least.msat_pos {n s m : ℕ} (h : Least n s m) (hm : 0 < m) : 109 + 127 * (m - 1) < s := by
  obtain ⟨hsat, hmsat⟩ := h.enough
  by_contra hle
  have hless := (h.le s (m - 1) ⟨by omega, by omega⟩).2
  omega

/-! ### What is in the tables -/

/-- A loop marks the sectors from one to another. -/
theorem markTo_ok (value : ℕ → ℤ) {stop sect : ℕ} {sat : List ℤ} (hsect : sect ≤ stop)
    (hlen : stop ≤ sat.length) :
    ∃ sat', markTo value stop sect sat = some (sat', List.range' sect (stop - sect), stop) ∧
      sat'.length = sat.length ∧
        ∀ k, sat'[k]? = if sect ≤ k ∧ k < stop then some (value k) else sat[k]? := by
  have hbound : sect + (stop - sect) ≤ sat.length := by omega
  obtain ⟨sat', hfill, hlength, hget⟩ := fill_ok value hbound
  have hstop : sect + (stop - sect) = stop := by omega
  rw [hstop] at hget
  exact ⟨sat', by rw [markTo, hfill, Option.map_some, hstop], hlength, hget⟩

/-- The chain of a stream. -/
theorem chainTo_ok {stop sect : ℕ} {sat : List ℤ} (hsect : sect < stop) (hlen : stop ≤ sat.length) :
    ∃ sat', chainTo stop sect sat = some (sat', List.range' sect (stop - sect), stop) ∧
      sat'.length = sat.length ∧
        ∀ k, sat'[k]? = if sect ≤ k ∧ k < stop then
          some (if k + 1 = stop then sidEndOfChain else k + 1) else sat[k]? := by
  have hloop : sect ≤ stop - 1 := by omega
  have hroom : stop - 1 ≤ sat.length := by omega
  obtain ⟨sat', hmark, hlength, hget⟩ := markTo_ok (fun sect => (sect : ℤ) + 1) hloop hroom
  have hbound : stop - 1 < sat'.length := by omega
  have hsects : List.range' sect (stop - 1 - sect) ++ [stop - 1] =
      List.range' sect (stop - sect) := by
    rw [show stop - sect = stop - 1 - sect + 1 by omega, ← List.range'_append_1, List.range'_one]
    congr 2
    omega
  refine ⟨sat'.set (stop - 1) sidEndOfChain, ?_, by rw [List.length_set, hlength], fun k => ?_⟩
  · rw [chainTo, hmark, Option.bind_eq_bind, Option.bind_some]
    dsimp only
    rw [put, if_pos hbound, hsects, show stop - 1 + 1 = stop by omega]
    rfl
  · rw [List.getElem?_set, hget]
    by_cases hk : stop - 1 = k
    · rw [if_pos hk, if_pos hbound, if_pos (by omega), if_pos (by omega)]
    · rw [if_neg hk]
      by_cases hin : sect ≤ k ∧ k < stop - 1
      · rw [if_pos hin, if_pos (by omega), if_neg (by omega)]
      · rw [if_neg hin, if_neg (by omega)]

/-- What the first table says of a sector, after `b` sectors of the stream, `m` of the second table
and `s` of the first. -/
def satAt (b m s k : ℕ) : ℤ :=
  if k + 1 < b then k + 1
  else if k + 1 = b then sidEndOfChain
  else if k < b + m then sidUsedByMsat
  else if k < b + m + s then sidUsedBySat
  else if k = b + m + s then sidEndOfChain
  else sidFreeSector

/-- What the second table says, in the order of the sectors of the first one. -/
def sidAt (b m s j : ℕ) : ℤ := if j < s then (b + m + j : ℕ) else sidFreeSector

/-- What is in the own sectors of the second table. -/
def msatAt (b m s p : ℕ) : ℤ :=
  if p % 128 = 127 then
    if p / 128 + 1 < m then (b + (p / 128 + 1) : ℕ) else sidEndOfChain
  else sidAt b m s (109 + 127 * (p / 128) + p % 128)

/-- A list of all the values of a function. -/
theorem eq_map_range {f : ℕ → ℤ} {table : List ℤ}
    (h : ∀ k < table.length, table[k]? = some (f k)) :
    table = (List.range table.length).map f := by
  refine List.ext_getElem? fun k => ?_
  rw [List.getElem?_map]
  by_cases hk : k < table.length
  · rw [h k hk, List.getElem?_range hk, Option.map_some]
  · rw [List.getElem?_eq_none (by omega), List.getElem?_eq_none (by rw [List.length_range]; omega),
      Option.map_none]

/-- The loop over the first part of the second table. -/
theorem msat1st_loop (xs : List ℕ) (s n : ℕ) (table : List ℤ) (hlen : s + n ≤ table.length) :
    (((List.range' s n).zip xs).foldl (fun msat p => msat.set p.1 p.2) table).length =
      table.length ∧
    ∀ k, (((List.range' s n).zip xs).foldl (fun msat p => msat.set p.1 p.2) table)[k]? =
      if s ≤ k ∧ k < s + n ∧ k < s + xs.length then some ((xs.getD (k - s) 0 : ℕ) : ℤ)
      else table[k]? := by
  induction n generalizing xs s table with
  | zero => exact ⟨rfl, fun k => by rw [if_neg (by omega)]; rfl⟩
  | succ n ih =>
    cases xs with
    | nil => exact ⟨rfl, fun k => by rw [if_neg (by simp; omega)]; rfl⟩
    | cons x xs =>
      rw [List.range'_succ, List.zip_cons_cons, List.foldl_cons]
      obtain ⟨hlength, hget⟩ := ih xs (s + 1) (table.set s x) (by rw [List.length_set]; omega)
      refine ⟨by rw [hlength, List.length_set], fun k => ?_⟩
      rw [hget, List.getElem?_set, List.length_cons]
      by_cases hk : s = k
      · subst hk
        rw [if_neg (by omega), if_pos rfl, if_pos (by omega), if_pos (by omega), Nat.sub_self]
        rfl
      · rw [if_neg hk]
        by_cases hin : s + 1 ≤ k ∧ k < s + 1 + n ∧ k < s + 1 + xs.length
        · rw [if_pos hin, if_pos (by omega), show k - s = k - (s + 1) + 1 by omega,
            List.getD_cons_succ]
        · rw [if_neg hin, if_neg (by omega)]

/-- The first part of the second table. -/
theorem buildMsat1st_eq (b m s : ℕ) :
    buildMsat1st (List.range' (b + m) s) = (List.range 109).map (sidAt b m s) := by
  have hlen : 0 + 109 ≤ (List.replicate 109 sidFreeSector).length := by simp
  obtain ⟨hlength, hget⟩ := msat1st_loop (List.range' (b + m) s) 0 109 _ hlen
  rw [← List.range_eq_range', ← buildMsat1st, List.length_replicate] at hlength
  rw [← List.range_eq_range', ← buildMsat1st] at hget
  rw [← hlength]
  refine eq_map_range fun k hk => ?_
  rw [hlength] at hk
  rw [hget, sidAt, List.length_range']
  by_cases hs : k < s
  · rw [if_pos (by omega), if_pos hs, Nat.sub_zero, List.getD_eq_getElem?_getD,
      List.getElem?_range' hs]
    simp
  · rw [if_neg (by omega), if_neg hs, List.getElem?_replicate, if_pos hk]

/-- The state of the loop over the rest of the second table: the entries before `sidNum` have been
written, and the others are as they were. -/
structure MsatInv (b m s i msatSect sidNum : ℕ) (msat2nd : List ℤ) : Prop where
  length : msat2nd.length = 128 * m
  i : i = 109 + 127 * (sidNum / 128) + sidNum % 128
  msatSect : msatSect = sidNum / 128
  get : ∀ k < 128 * m, msat2nd[k]? = some (if k < sidNum then msatAt b m s k
    else if k + 1 = 128 * m then sidEndOfChain else sidFreeSector)

/-- One more entry. -/
theorem MsatInv.put {b m s i msatSect sidNum : ℕ} {msat2nd : List ℤ}
    (h : MsatInv b m s i msatSect sidNum msat2nd) (hsid : sidNum < 128 * m) {v : ℤ}
    (hv : v = msatAt b m s sidNum) {i' msatSect' : ℕ}
    (hi : i' = 109 + 127 * ((sidNum + 1) / 128) + (sidNum + 1) % 128)
    (hmsat : msatSect' = (sidNum + 1) / 128) :
    ∃ msat2nd', SectorChain.put msat2nd sidNum v = some msat2nd' ∧
      MsatInv b m s i' msatSect' (sidNum + 1) msat2nd' := by
  have hbound : sidNum < msat2nd.length := by rwa [h.length]
  refine ⟨msat2nd.set sidNum v, if_pos hbound, ⟨by rw [List.length_set, h.length], hi, hmsat,
    fun k hk => ?_⟩⟩
  rw [List.getElem?_set]
  by_cases hsidk : sidNum = k
  · subst hsidk
    rw [if_pos rfl, if_pos hbound, if_pos (by omega), hv]
  · rw [if_neg hsidk, h.get k hk]
    exact congrArg some (if_congr (by omega) rfl rfl)

/-- What the loop leaves, when the sectors of the first table have all been written. -/
theorem MsatInv.finish {n b m s i msatSect sidNum : ℕ} {msat2nd : List ℤ} (hleast : Least n s m)
    (h : MsatInv b m s i msatSect sidNum msat2nd) (hi : ¬ i < s) :
    msat2nd = (List.range (128 * m)).map (msatAt b m s) := by
  have hisid := h.i
  rw [← h.length]
  refine eq_map_range fun k hk => ?_
  rw [h.length] at hk
  have hlast := hleast.msat_pos (by omega)
  rw [h.get k hk]
  by_cases hsid : k < sidNum
  · rw [if_pos hsid]
  · rw [if_neg hsid, msatAt, sidAt]
    by_cases hlink : k % 128 = 127
    · rw [if_pos (by omega), if_pos hlink, if_neg (by omega)]
    · rw [if_neg (by omega), if_neg hlink, if_neg (by omega)]

/-- The loop over the rest of the second table. -/
theorem msat2nd_loop {n b m s : ℕ} (hleast : Least n s m) {i msatSect sidNum : ℕ}
    {msat2nd : List ℤ} (h : MsatInv b m s i msatSect sidNum msat2nd) :
    fillMsat2nd (List.range' (b + m) s) (List.range' b m) i msatSect sidNum msat2nd =
      some ((List.range (128 * m)).map (msatAt b m s)) := by
  have hroom := hleast.enough.msat
  induction hk : 128 * m - sidNum generalizing i msatSect sidNum msat2nd with
  | zero =>
    have hisid := h.i
    have hi : ¬ i < s := by omega
    rw [fillMsat2nd, dif_neg (by rwa [List.length_range']), h.finish hleast hi]
  | succ k ih =>
    have hisid := h.i
    have hmsat := h.msatSect
    by_cases hi : i < s
    · rw [fillMsat2nd, dif_pos (by rwa [List.length_range'])]
      by_cases hlink : (sidNum + 1) % 128 = 0
      · -- the last entry of a sector, and there is one more, since not all has been written
        have hnext : msatSect + 1 < m := by omega
        obtain ⟨msat2nd', hput, hinv⟩ := h.put (v := (b + (msatSect + 1) : ℕ)) (by omega)
          (by rw [msatAt, if_pos (by omega), if_pos (by omega), hmsat]) (by omega : i = _)
          (by omega : msatSect + 1 = _)
        rw [if_pos hlink, dif_pos (by rwa [List.length_range'])]
        simp only [List.getElem_range', one_mul, hput]
        exact ih hinv (by omega)
      · obtain ⟨msat2nd', hput, hinv⟩ := h.put (v := (b + m + i : ℕ)) (by omega)
          (by rw [msatAt, if_neg (by omega), sidAt, ← hisid, if_pos hi]) (by omega : i + 1 = _)
          (by omega : msatSect = _)
        rw [if_neg hlink]
        simp only [List.getElem_range', one_mul, hput]
        exact ih hinv (by omega)
    · rw [fillMsat2nd, dif_neg (by rwa [List.length_range']), h.finish hleast hi]

/-- The rest of the second table. -/
theorem buildMsat2nd_eq {n m s : ℕ} (hleast : Least n s m) (b : ℕ) :
    buildMsat2nd (List.range' (b + m) s) (List.range' b m) =
      some ((List.range (128 * m)).map (msatAt b m s)) := by
  refine msat2nd_loop hleast ⟨?_, rfl, rfl, fun k hk => ?_⟩
  · split <;> simp
  · have hm : (List.range' b m).length > 0 := by
      rw [List.length_range']
      omega
    rw [if_pos hm, List.getElem?_set, List.length_replicate, List.length_range',
      List.getElem?_replicate, if_neg (Nat.not_lt_zero k)]
    by_cases hlast : 128 * m - 1 = k
    · rw [if_pos hlast, if_pos (by omega), if_pos (by omega)]
    · rw [if_neg hlast, if_pos hk, if_neg (by omega)]

/-- **What is in the tables**, after `b` sectors of the stream and with one of the directory: each
entry as a function of its place. -/
theorem buildSat_eq {b m s : ℕ} (hb : 0 < b) (hcounts : satCounts (b + 1) 0 0 109 = (s, m)) :
    buildSat b 1 = some ⟨List.range' 0 b, List.range' b m, List.range' (b + m) s, [b + m + s],
      (List.range (128 * s)).map (satAt b m s), (List.range 109).map (sidAt b m s),
      (List.range (128 * m)).map (msatAt b m s)⟩ := by
  have hleast := satCounts_least (b + 1)
  rw [hcounts] at hleast
  dsimp only at hleast
  have hroom := hleast.enough.sat
  have hfree : b ≤ (List.replicate (128 * s) sidFreeSector).length := by
    rw [List.length_replicate]
    omega
  -- the four loops, each of which marks the sectors behind those of the one before
  obtain ⟨sat₁, hbook, hlength₁, hget₁⟩ := chainTo_ok hb hfree
  rw [List.length_replicate] at hlength₁
  obtain ⟨sat₂, hmsat, hlength₂, hget₂⟩ := markTo_ok (fun _ => sidUsedByMsat)
    (Nat.le_add_right b m) (by omega : b + m ≤ sat₁.length)
  obtain ⟨sat₃, hsat, hlength₃, hget₃⟩ := markTo_ok (fun _ => sidUsedBySat)
    (Nat.le_add_right (b + m) s) (by omega : b + m + s ≤ sat₂.length)
  obtain ⟨sat₄, hdir, hlength₄, hget₄⟩ := chainTo_ok (Nat.lt_add_one (b + m + s))
    (by omega : b + m + s + 1 ≤ sat₃.length)
  -- entry by entry, from the last loop to the first
  have hsat₄ : sat₄ = (List.range (128 * s)).map (satAt b m s) := by
    rw [← (by omega : sat₄.length = 128 * s)]
    refine eq_map_range fun k hk => ?_
    rw [hget₄, hget₃, hget₂, hget₁, satAt, List.getElem?_replicate]
    split_ifs <;> first | rfl | omega
  rw [buildSat, hcounts]
  dsimp only
  rw [hbook, Option.bind_eq_bind, Option.bind_some]
  dsimp only
  rw [hmsat, Option.bind_eq_bind, Option.bind_some]
  dsimp only
  rw [hsat, Option.bind_some]
  dsimp only
  rw [hdir, Option.bind_some]
  dsimp only
  rw [Nat.sub_zero, Nat.add_sub_cancel_left, Nat.add_sub_cancel_left, Nat.add_sub_cancel_left,
    buildMsat2nd_eq hleast, hsat₄, buildMsat1st_eq]
  rfl

/-! ### What is found in the directory and in the header -/

/-- The bytes of an entry. -/
theorem bytes_dentry (name : List UInt8) (type : ℕ) (didRoot startSid : ℤ) (streamSz : ℕ) :
    ∃ mid, mid.length = 49 ∧ (dentryFields name type didRoot startSid streamSz).flatMap Item.bytes =
      name ++ List.replicate (64 - name.length) 0 ++ (le 2 name.length ++ (le 1 type ++
        (mid ++ (leI 4 startSid ++ (le 4 streamSz ++ le 4 0))))) := by
  refine ⟨([Item.B 0x01, .l (-1), .l (-1), .l didRoot] ++ List.replicate 9 (Item.L 0)).flatMap Item.bytes,
    ?_, ?_⟩
  · rw [List.flatMap_append, List.length_append]
    simp [Item.bytes]
  · rw [dentryFields, List.flatMap_append, List.flatMap_append]
    simp [Item.bytes]

/-- An entry is read. -/
theorem dentry_ok (name : List UInt8) (type : ℕ) (didRoot startSid : ℤ) {streamSz : ℕ}
    (hname : name.length ≤ 64) (htype : type < 2 ^ 8)
    (hroot : -2 ^ 31 ≤ didRoot ∧ didRoot < 2 ^ 31) (hstart : -2 ^ 31 ≤ startSid ∧ startSid < 2 ^ 31)
    (hsize : streamSz < 2 ^ 32) :
    ∃ bs, dentry name type didRoot startSid streamSz = some bs ∧ bs.length = 128 ∧
      ∀ rest, readEntry (bs ++ rest) = some (name, type, startSid, streamSz) := by
  have hfits : ∀ f ∈ dentryFields name type didRoot startSid streamSz, f.Fits := by
    simp [dentryFields, Item.Fits]
    omega
  have hpadded : (name ++ List.replicate (64 - name.length) (0 : UInt8)).length = 64 := by
    rw [List.length_append, List.length_replicate]
    omega
  obtain ⟨mid, hmid, hbytes⟩ := bytes_dentry name type didRoot startSid streamSz
  refine ⟨_, pack_of_fits hfits, ?_, fun rest => ?_⟩
  · rw [hbytes, List.length_append, hpadded]
    simp only [List.length_append, length_le, length_leI, hmid]
  · simp only [hbytes, List.append_assoc]
    rw [readEntry, ← List.append_assoc, List.drop_left' hpadded, List.append_assoc,
      readU_two (by omega), Option.bind_eq_bind, Option.bind_some]
    dsimp only
    rw [readU_le htype, Option.bind_some]
    dsimp only
    rw [List.drop_left' hmid, readI_leI hstart, Option.bind_eq_bind, Option.bind_some]
    dsimp only
    rw [readU_four hsize, Option.bind_some]
    dsimp only
    rw [List.take_left' rfl]

/-- The directory, with the stream at the first sector. -/
theorem buildDirectory_ok {size : ℕ} (hsize : size < 2 ^ 32) :
    ∃ dir, buildDirectory size = some dir ∧ dir.length = 512 ∧
      ∀ rest, findStream bookName 4 (dir ++ rest) = some (0, size) := by
  have hzero : 0 < 2 ^ 32 := by decide
  obtain ⟨root, hroot, hrootLen, hrootRead⟩ := dentry_ok rootName 0x05 1 (-2) (by decide)
    (by decide) (by decide) (by decide) hzero
  obtain ⟨book, hbook, hbookLen, hbookRead⟩ := dentry_ok bookName 0x02 (-1) 0 (by decide)
    (by decide) (by decide) (by decide) hsize
  obtain ⟨pad, hpad, hpadLen, -⟩ := dentry_ok [] 0x00 (-1) (-2) (by decide) (by decide) (by decide)
    (by decide) hzero
  refine ⟨root ++ (book ++ (pad ++ pad)), ?_, ?_, fun rest => ?_⟩
  · rw [buildDirectory, hroot, hbook, hpad]
    rfl
  · simp only [List.length_append, hrootLen, hbookLen, hpadLen]
  · rw [List.append_assoc, List.append_assoc, findStream, hrootRead, Option.bind_eq_bind,
      Option.bind_some]
    dsimp only
    rw [if_neg (by decide), List.drop_left' hrootLen, findStream, hbookRead, Option.bind_eq_bind,
      Option.bind_some]
    dsimp only
    rw [if_pos ⟨rfl, rfl⟩]

/-- A stream that is too long for the directory is refused. -/
theorem buildDirectory_long {size : ℕ} (hsize : 2 ^ 32 ≤ size) : buildDirectory size = none := by
  have hbook : dentry bookName 0x02 (-1) 0 size = none := by
    refine if_neg fun hfits => ?_
    have hlen := hfits (.L size) (by simp [dentryFields])
    rw [Item.Fits] at hlen
    omega
  rw [buildDirectory, hbook]
  cases dentry rootName 0x05 1 (-2) 0 <;> rfl

/-- The bytes of a header. -/
theorem bytes_header (satCount : ℕ) (dirStartSid msatStartSid : ℤ) (msatCount : ℕ) :
    ∃ before mid, before.length = 22 ∧ mid.length = 12 ∧
      (headerFields satCount dirStartSid msatStartSid msatCount).flatMap Item.bytes =
        docMagic ++ (before ++ (le 2 9 ++ (mid ++ (le 4 satCount ++ (leI 4 dirStartSid ++
          (List.replicate 4 0 ++ (le 4 0x1000 ++ ((leI 4 (-2) ++ le 4 0) ++
            (leI 4 msatStartSid ++ le 4 msatCount))))))))) := by
  refine ⟨List.replicate 16 0 ++ ([0x3E, 0x00] ++ ([0x03, 0x00] ++ [0xFE, 0xFF])),
    le 2 6 ++ List.replicate 10 0, by decide, by simp, ?_⟩
  rw [headerFields]
  simp only [List.flatMap_append, List.append_assoc]
  simp [Item.bytes]

theorem readCounts_ok {satCount msatCount : ℕ} {dirStartSid msatStartSid : ℤ}
    (hsat : satCount < 2 ^ 32) (hmsat : msatCount < 2 ^ 32)
    (hdir : -2 ^ 31 ≤ dirStartSid ∧ dirStartSid < 2 ^ 31)
    (hstart : -2 ^ 31 ≤ msatStartSid ∧ msatStartSid < 2 ^ 31) {msat : List ℤ} {rest : List UInt8}
    (hread : readIs 109 rest = some msat) :
    readCounts (le 4 satCount ++ (leI 4 dirStartSid ++ (List.replicate 4 0 ++ (le 4 0x1000 ++
      ((leI 4 (-2) ++ le 4 0) ++ (leI 4 msatStartSid ++ (le 4 msatCount ++ rest))))))) =
        some ⟨satCount, dirStartSid, 0x1000, msatStartSid, msatCount, msat⟩ := by
  rw [readCounts, readU_four hsat, Option.bind_eq_bind, Option.bind_some]
  dsimp only
  rw [readI_leI hdir, Option.bind_eq_bind, Option.bind_some]
  dsimp only
  rw [List.drop_left' (List.length_replicate), readU_four (by decide), Option.bind_some]
  dsimp only
  rw [List.drop_left' (by simp), readI_leI hstart, Option.bind_eq_bind, Option.bind_some]
  dsimp only
  rw [readU_four hmsat, Option.bind_some]
  dsimp only
  rw [hread]
  rfl

/-- A header is read, with the part of the second table after it. -/
theorem header_ok {satCount msatCount : ℕ} {dirStartSid msatStartSid : ℤ}
    (hsat : satCount < 2 ^ 32) (hmsat : msatCount < 2 ^ 32)
    (hdir : -2 ^ 31 ≤ dirStartSid ∧ dirStartSid < 2 ^ 31)
    (hstart : -2 ^ 31 ≤ msatStartSid ∧ msatStartSid < 2 ^ 31) :
    ∃ header, pack (headerFields satCount dirStartSid msatStartSid msatCount) = some header ∧
      header.length = 76 ∧ ∀ msat rest, readIs 109 rest = some msat →
        readHeader (header ++ rest) =
          some ⟨satCount, dirStartSid, 0x1000, msatStartSid, msatCount, msat⟩ := by
  have hfits : ∀ f ∈ headerFields satCount dirStartSid msatStartSid msatCount, f.Fits := by
    simp [headerFields, Item.Fits]
    omega
  obtain ⟨before, mid, hbefore, hmid, hbytes⟩ :=
    bytes_header satCount dirStartSid msatStartSid msatCount
  have hmagic : docMagic.length = 8 := rfl
  refine ⟨_, pack_of_fits hfits, ?_, fun msat rest hread => ?_⟩
  · rw [hbytes]
    simp only [List.length_append, length_le, length_leI, hbefore, hmid, hmagic,
      List.length_replicate]
  · have hcounts := readCounts_ok hsat hmsat hdir hstart hread
    rw [hbytes]
    simp only [List.append_assoc] at hcounts ⊢
    generalize le 4 satCount ++ (leI 4 dirStartSid ++ (List.replicate 4 0 ++ (le 4 0x1000 ++
      (leI 4 (-2) ++ (le 4 0 ++ (leI 4 msatStartSid ++ (le 4 msatCount ++ rest))))))) = tail
      at hcounts ⊢
    -- the reader looks at the places 30 and 44, behind fields of known lengths
    have hshift : (docMagic ++ (before ++ (le 2 9 ++ (mid ++ tail)))).drop 30 =
        le 2 9 ++ (mid ++ tail) := by
      rw [← List.append_assoc]
      exact List.drop_left' (by rw [List.length_append, hmagic, hbefore])
    have htail : (docMagic ++ (before ++ (le 2 9 ++ (mid ++ tail)))).drop 44 = tail := by
      rw [← List.append_assoc, ← List.append_assoc, ← List.append_assoc]
      exact List.drop_left' (by
        simp only [List.length_append, length_le, hmagic, hbefore, hmid])
    rw [readHeader, List.take_left' hmagic, if_neg (not_not.mpr rfl), hshift, htail,
      readU_two (by decide), Option.bind_eq_bind, Option.bind_some]
    dsimp only
    rw [if_neg (not_not.mpr rfl), hcounts]

/-! ### What is found in the tables -/

/-- The entries of a sector of a table. -/
theorem slice_map_range (f : ℕ → ℤ) {n k l : ℕ} (hkl : k + l ≤ n) :
    (((List.range n).map f).drop k).take l = (List.range' k l).map f := by
  rw [← List.map_drop, ← List.map_take, List.range_eq_range', List.drop_range',
    List.take_range'_of_length_ge (by omega), Nat.zero_add, mul_one]

theorem satAt_bounds {b m s : ℕ} (hb : b < 2 ^ 31) (k : ℕ) :
    -2 ^ 31 ≤ satAt b m s k ∧ satAt b m s k < 2 ^ 31 := by
  rw [satAt, sidEndOfChain, sidUsedByMsat, sidUsedBySat, sidFreeSector]
  split_ifs <;> omega

theorem sidAt_bounds {b m s : ℕ} (hb : b + m + s < 2 ^ 31) (j : ℕ) :
    -2 ^ 31 ≤ sidAt b m s j ∧ sidAt b m s j < 2 ^ 31 := by
  rw [sidAt, sidFreeSector]
  split_ifs <;> omega

theorem msatAt_bounds {b m s : ℕ} (hb : b + m + s < 2 ^ 31) (p : ℕ) :
    -2 ^ 31 ≤ msatAt b m s p ∧ msatAt b m s p < 2 ^ 31 := by
  rw [msatAt, sidEndOfChain]
  split_ifs
  · omega
  · omega
  · exact sidAt_bounds hb _

theorem bounds_map {f : ℕ → ℤ} (h : ∀ k, -2 ^ 31 ≤ f k ∧ f k < 2 ^ 31) (xs : List ℕ) :
    ∀ n ∈ xs.map f, -2 ^ 31 ≤ n ∧ n < 2 ^ 31 := by
  intro n hn
  obtain ⟨k, -, rfl⟩ := List.mem_map.mp hn
  exact h k

/-- A sector of a table that starts at a sector. -/
theorem readIs_sector {f : ℕ → ℤ} (hf : ∀ k, -2 ^ 31 ≤ f k ∧ f k < 2 ^ 31) {sectors data : List UInt8}
    {b n : ℕ} (hdata : data.length = 512 * b) {tail : List UInt8}
    (hsectors : sectors = data ++ (leIs ((List.range (128 * n)).map f) ++ tail)) {a : ℕ} (ha : a < n) :
    readIs 128 (fromSector 512 sectors (b + a)) = some ((List.range' (128 * a) 128).map f) := by
  have hdrop : fromSector 512 sectors (b + a) =
      (leIs ((List.range (128 * n)).map f) ++ tail).drop (4 * (128 * a)) := by
    rw [fromSector, hsectors, Nat.mul_add, ← List.drop_drop, List.drop_left' hdata]
    congr 1
    omega
  rw [hdrop, readIs_slice (bounds_map hf _) (by rw [List.length_map, List.length_range]; omega),
    slice_map_range f (by omega)]

/-- The second table is found in its own sectors. -/
theorem followMsat_ok {b m s : ℕ} (hb : b + m + s < 2 ^ 31) {sectors data tail : List UInt8}
    (hdata : data.length = 512 * b)
    (hsectors : sectors = data ++ (leIs ((List.range (128 * m)).map (msatAt b m s)) ++ tail))
    {a n fuel : ℕ} (han : a + n = m) (hfuel : n < fuel) :
    followMsat sectors fuel (if a < m then (b + a : ℕ) else sidEndOfChain) =
      some ((List.range' (109 + 127 * a) (127 * n)).map (sidAt b m s)) := by
  -- by induction on the sectors that are left; the last entry of one is the next of them
  induction n generalizing a fuel with
  | zero =>
    obtain ⟨fuel, rfl⟩ : ∃ k, fuel = k + 1 := ⟨fuel - 1, by omega⟩
    rw [if_neg (by omega), followMsat, if_pos rfl]
    rfl
  | succ n ih =>
    obtain ⟨fuel, rfl⟩ : ∃ k, fuel = k + 1 := ⟨fuel - 1, by omega⟩
    have hentries := readIs_sector (msatAt_bounds hb) hdata hsectors (a := a) (by omega)
    -- the link at the end of the sector
    have hnext : ((List.range' (128 * a) 128).map (msatAt b m s))[127]? =
        some (if a + 1 < m then ((b + (a + 1) : ℕ) : ℤ) else sidEndOfChain) := by
      have hmod : (128 * a + 127) % 128 = 127 := by omega
      have hdiv : (128 * a + 127) / 128 = a := by omega
      rw [List.getElem?_map, List.getElem?_range' (by decide), one_mul, Option.map_some, msatAt,
        if_pos hmod, hdiv]
    -- the other 127 entries
    have htake : ((List.range' (128 * a) 128).map (msatAt b m s)).take 127 =
        (List.range' (109 + 127 * a) 127).map (sidAt b m s) := by
      rw [← List.map_take, List.take_range'_of_length_ge (by decide)]
      refine List.ext_getElem (by simp) fun j hj _ => ?_
      rw [List.length_map, List.length_range'] at hj
      have hmod : (128 * a + j) % 128 = j := by omega
      have hdiv : (128 * a + j) / 128 = a := by omega
      rw [List.getElem_map, List.getElem_map, List.getElem_range', List.getElem_range', one_mul,
        msatAt, hmod, hdiv, if_neg (by omega)]
    have hsplit : List.range' (109 + 127 * a) 127 ++ List.range' (109 + 127 * (a + 1)) (127 * n) =
        List.range' (109 + 127 * a) (127 * (n + 1)) := by
      rw [show 109 + 127 * (a + 1) = 109 + 127 * a + 127 by omega, List.range'_append_1]
      congr 1
      omega
    rw [if_pos (by omega), followMsat, if_neg (by rw [sidEndOfChain]; omega), if_neg (by omega),
      Int.toNat_natCast, hentries, Option.bind_eq_bind, Option.bind_some, hnext,
      Option.bind_eq_bind, Option.bind_some, ih (by omega) (by omega), Option.bind_some, htake,
      ← List.map_append, hsplit]

/-- The first table is found in its sectors. -/
theorem readSat_ok {f : ℕ → ℤ} (hf : ∀ k, -2 ^ 31 ≤ f k ∧ f k < 2 ^ 31) {sectors data : List UInt8}
    {b n : ℕ} (hdata : data.length = 512 * b) {tail : List UInt8}
    (hsectors : sectors = data ++ (leIs ((List.range (128 * n)).map f) ++ tail)) {a k : ℕ}
    (hak : a + k = n) :
    readSat sectors (List.range' (b + a) k) = some ((List.range' (128 * a) (128 * k)).map f) := by
  induction k generalizing a with
  | zero => rfl
  | succ k ih =>
    rw [List.range'_succ, readSat, readIs_sector hf hdata hsectors (by omega), add_assoc,
      ih (by omega), Option.bind_eq_bind, Option.bind_some, Option.bind_some,
      ← List.map_append, Nat.mul_succ, Nat.mul_succ, Nat.add_comm (128 * k),
      ← List.range'_append_1]

/-- The sectors of the first table are found in the second one. -/
theorem satSect_found {b m s : ℕ} (hs : s ≤ 109 + 127 * m) :
    (((List.range 109).map (sidAt b m s) ++
      (List.range' 109 (127 * m)).map (sidAt b m s)).filter (0 ≤ ·)).map Int.toNat =
        List.range' (b + m) s := by
  -- both parts of the second table are one range, of which the first `s` entries are used
  have hall : List.range 109 ++ List.range' 109 (127 * m) =
      List.range' 0 s ++ List.range' s (109 + 127 * m - s) := by
    have hfirst := List.range'_append_1 (s := 0) (m := 109) (n := 127 * m)
    have hsecond := List.range'_append_1 (s := 0) (m := s) (n := 109 + 127 * m - s)
    rw [Nat.zero_add] at hfirst hsecond
    rw [List.range_eq_range', hfirst, hsecond]
    congr 1
    omega
  have hused : (List.range' 0 s).map (sidAt b m s) = (List.range' (b + m) s).map Int.ofNat := by
    refine List.ext_getElem (by simp) fun j hj _ => ?_
    rw [List.length_map, List.length_range'] at hj
    rw [List.getElem_map, List.getElem_map, List.getElem_range', List.getElem_range', one_mul,
      Nat.zero_add, sidAt, if_pos hj]
    rfl
  have hfree : ((List.range' s (109 + 127 * m - s)).map (sidAt b m s)).filter (0 ≤ ·) = [] := by
    rw [List.filter_eq_nil_iff]
    intro v hv
    obtain ⟨j, hj, rfl⟩ := List.mem_map.mp hv
    rw [List.mem_range'_1] at hj
    rw [sidAt, if_neg (by omega), sidFreeSector]
    decide
  rw [← List.map_append, hall, List.map_append, hused, List.filter_append, hfree, List.append_nil,
    List.filter_eq_self.mpr, List.map_map]
  · exact List.map_id _
  · intro v hv
    obtain ⟨j, -, rfl⟩ := List.mem_map.mp hv
    exact decide_eq_true (Int.natCast_nonneg j)

/-! ### The round trip -/

/-- The stream and its padding fill sectors. -/
theorem padded_length (stream : List UInt8) :
    0x1000 ≤ stream.length + (padding stream).length ∧
      512 * ((stream.length + (padding stream).length) >>> 9) =
        stream.length + (padding stream).length := by
  rw [padding, List.length_replicate, Nat.shiftRight_eq_div_pow]
  omega

/-- The tables are much smaller than the stream. -/
theorem Least.small {b s m : ℕ} (h : Least (b + 1) s m) (hb : b < 2 ^ 23) : b + m + s < 2 ^ 31 := by
  obtain ⟨hs, hm⟩ := h.le (b + 2) (b + 2) ⟨by omega, by omega⟩
  omega

/-- The first sector of the second table, or the mark for the end when all of it is in the header.
-/
def msatStart (b m : ℕ) : ℤ := if 0 < m then (b + 0 : ℕ) else sidEndOfChain

theorem msatStart_bounds {b : ℕ} (hb : b < 2 ^ 31) (m : ℕ) :
    -2 ^ 31 ≤ msatStart b m ∧ msatStart b m < 2 ^ 31 := by
  rw [msatStart, sidEndOfChain]
  split_ifs <;> omega

/-- What is after the header: the stream, the second table, the first one and the directory. -/
def bodyBytes (b m s : ℕ) (stream dir : List UInt8) : List UInt8 :=
  stream ++ padding stream ++ (leIs ((List.range (128 * m)).map (msatAt b m s)) ++
    (leIs ((List.range (128 * s)).map (satAt b m s)) ++ dir))

/-- A file is written: a header, the tables and the directory. -/
theorem save_eq {stream header dir : List UInt8} {b m s : ℕ}
    (hb : 512 * b = stream.length + (padding stream).length)
    (hlong : stream.length + (padding stream).length < 2 ^ 32)
    (hcounts : satCounts (b + 1) 0 0 109 = (s, m))
    (hheader : pack (headerFields s (b + m + s : ℕ) (msatStart b m) m) = some header)
    (hdir : buildDirectory (stream.length + (padding stream).length) = some dir)
    (hdirLen : dir.length = 512) :
    save stream = some (header ++ (leIs ((List.range 109).map (sidAt b m s)) ++
      bodyBytes b m s stream dir)) := by
  have hleast := satCounts_least (b + 1)
  rw [hcounts] at hleast
  have hsmall := hleast.small (by omega)
  obtain ⟨hlow, -⟩ := padded_length stream
  have hsect : (stream.length + (padding stream).length) >>> 9 = b := by
    rw [Nat.shiftRight_eq_div_pow]
    omega
  have hfirst : ((List.range' b m).head?.map Int.ofNat).getD (-2) = msatStart b m := by
    rw [msatStart]
    cases m with
    | zero => rfl
    | succ m => rfl
  rw [save, hdir, Option.bind_eq_bind, Option.bind_some, hsect, hdirLen]
  rw [show 512 >>> 9 = 1 from rfl, buildSat_eq (by omega) hcounts, Option.bind_eq_bind,
    Option.bind_some]
  dsimp only
  rw [pack_longs (bounds_map (satAt_bounds (by omega)) _), Option.bind_some,
    pack_longs (bounds_map (sidAt_bounds hsmall) _), Option.bind_some,
    pack_longs (bounds_map (msatAt_bounds hsmall) _), Option.bind_some, buildHeader,
    List.head?_cons, Option.bind_eq_bind, Option.bind_some, hfirst, List.length_range',
    List.length_range', hheader, Option.bind_some, bodyBytes, List.append_assoc stream]

/-- The bytes of a stream whose sectors are neighbours. -/
theorem readStream_run {sectors front data tail : List UInt8} {b m s sect n : ℕ}
    (hsectors : sectors = front ++ (data ++ tail)) (hfront : front.length = 512 * sect)
    (hdata : data.length = 512 * (n + 1)) (hroom : sect + n < 128 * s)
    (hnext : ∀ i < n, satAt b m s (sect + i) = ((sect + i : ℕ) + 1 : ℤ))
    (hend : satAt b m s (sect + n) = sidEndOfChain) :
    readStream sectors ((List.range (128 * s)).map (satAt b m s)) sect = some data := by
  have hget : ∀ k < 128 * s, ((List.range (128 * s)).map (satAt b m s))[k]? =
      some (satAt b m s k) := by
    intro k hk
    rw [List.getElem?_map, List.getElem?_range hk, Option.map_some]
  have hfollow : follow ((List.range (128 * s)).map (satAt b m s)) sidEndOfChain
      (((List.range (128 * s)).map (satAt b m s)).length + 1) sect =
        some (List.range' sect (n + 1)) := by
    refine follow_run (by decide) (fun i hi => ?_) ?_ ?_
    · rw [hget _ (by omega), hnext i hi]
    · rw [hget _ hroom, hend]
    · rw [List.length_map, List.length_range]
      omega
  rw [readStream, hfollow, Option.map_some, flatMap_sector, fromSector, hsectors,
    List.drop_left' hfront, List.take_left' hdata]

/-- What is found in the sectors of a file that has been written. -/
theorem body_found {stream dir : List UInt8} {b m s : ℕ}
    (hb : 512 * b = stream.length + (padding stream).length) (hpos : 0 < b)
    (hsmall : b + m + s < 2 ^ 31) (hroom : b + 1 + s + m ≤ 128 * s) (hdirLen : dir.length = 512) :
    followMsat (bodyBytes b m s stream dir) (m + 1) (msatStart b m) =
        some ((List.range' 109 (127 * m)).map (sidAt b m s)) ∧
      readSat (bodyBytes b m s stream dir) (List.range' (b + m) s) =
        some ((List.range (128 * s)).map (satAt b m s)) ∧
      readStream (bodyBytes b m s stream dir) ((List.range (128 * s)).map (satAt b m s))
        (b + m + s : ℕ) = some dir ∧
      readStream (bodyBytes b m s stream dir) ((List.range (128 * s)).map (satAt b m s)) 0 =
        some (stream ++ padding stream) := by
  -- where the tables and the directory start
  have hdataLen : (stream ++ padding stream).length = 512 * b := by
    rw [List.length_append, hb]
  have hfrontLen : (stream ++ padding stream ++
      leIs ((List.range (128 * m)).map (msatAt b m s))).length = 512 * (b + m) := by
    rw [List.length_append, hdataLen, length_leIs, List.length_map, List.length_range]
    omega
  have hallLen : (stream ++ padding stream ++ leIs ((List.range (128 * m)).map (msatAt b m s)) ++
      leIs ((List.range (128 * s)).map (satAt b m s))).length = 512 * (b + m + s) := by
    rw [List.length_append, hfrontLen, length_leIs, List.length_map, List.length_range]
    omega
  refine ⟨?_, ?_, ?_, ?_⟩
  · exact followMsat_ok hsmall hdataLen rfl (Nat.zero_add m) (Nat.lt_add_one m)
  · have hread := readSat_ok (satAt_bounds (b := b) (m := m) (s := s) (by omega)) hfrontLen
      (by rw [bodyBytes, ← List.append_assoc _ _ (_ ++ dir)] :
        bodyBytes b m s stream dir = _ ++ (_ ++ dir)) (Nat.zero_add s)
    rwa [Nat.mul_zero, ← List.range_eq_range'] at hread
  · have hsectors : bodyBytes b m s stream dir = stream ++ padding stream ++
        leIs ((List.range (128 * m)).map (msatAt b m s)) ++
          leIs ((List.range (128 * s)).map (satAt b m s)) ++ (dir ++ []) := by
      rw [bodyBytes, List.append_nil, List.append_assoc, List.append_assoc, List.append_assoc,
        List.append_assoc]
    -- the directory has one sector, and its chain ends there
    refine readStream_run (n := 0) hsectors hallLen (by omega) (by omega) (fun i hi => by omega) ?_
    rw [satAt]
    split_ifs <;> first | rfl | omega
  · have hsectors : bodyBytes b m s stream dir = [] ++ (stream ++ padding stream ++
        (leIs ((List.range (128 * m)).map (msatAt b m s)) ++
          (leIs ((List.range (128 * s)).map (satAt b m s)) ++ dir))) := rfl
    have hlen : (stream ++ padding stream).length = 512 * (b - 1 + 1) := by
      rw [hdataLen, Nat.sub_add_cancel hpos]
    -- the sectors of the stream are the first ones, each with the next one as its successor
    have hread : readStream (bodyBytes b m s stream dir)
        ((List.range (128 * s)).map (satAt b m s)) (0 : ℕ) = some (stream ++ padding stream) := by
      refine readStream_run hsectors rfl hlen (by omega) (fun i hi => ?_) ?_
      · rw [satAt, if_pos (by omega)]
      · rw [satAt, if_neg (by omega), if_pos (by omega)]
    exact hread

/-- The parts of the file of a stream that takes `b` sectors, with `m` and `s` sectors of tables:
how long each of them is, and what a reader finds in it. -/
structure FileParts (stream file : List UInt8) (b m s : ℕ) (header dir : List UInt8) : Prop where
  blocks : 512 * b = stream.length + (padding stream).length
  least : Least (b + 1) s m
  small : b + m + s < 2 ^ 31
  headerLength : header.length = 76
  readsHeader : ∀ msat rest, readIs 109 rest = some msat →
    readHeader (header ++ rest) =
      some ⟨s, (b + m + s : ℕ), 0x1000, msatStart b m, m, msat⟩
  dirLength : dir.length = 512
  finds : ∀ rest, findStream bookName 4 (dir ++ rest) =
    some (0, stream.length + (padding stream).length)
  bytes : file = header ++ (leIs ((List.range 109).map (sidAt b m s)) ++ bodyBytes b m s stream dir)

/-- A file is written when the length of the stream fits in the directory. -/
theorem save_parts (stream : List UInt8) :
    if stream.length + (padding stream).length < 2 ^ 32 then
      ∃ file b m s header dir, save stream = some file ∧ FileParts stream file b m s header dir
    else save stream = none := by
  split
  · next hlong =>
    obtain ⟨hlow, hb⟩ := padded_length stream
    generalize (stream.length + (padding stream).length) >>> 9 = b at hb
    obtain ⟨⟨s, m⟩, hcounts⟩ : ∃ c, satCounts (b + 1) 0 0 109 = c := ⟨_, rfl⟩
    have hleast := satCounts_least (b + 1)
    rw [hcounts] at hleast
    have hsmall := hleast.small (by omega)
    dsimp only at hsmall
    have hstart := msatStart_bounds (by omega : b < 2 ^ 31) m
    obtain ⟨dir, hdir, hdirLen, hfind⟩ := buildDirectory_ok hlong
    obtain ⟨header, hheader, hheaderLen, hreadHeader⟩ := header_ok (by omega : s < 2 ^ 32)
      (by omega : m < 2 ^ 32)
      (by omega : -2 ^ 31 ≤ ((b + m + s : ℕ) : ℤ) ∧ ((b + m + s : ℕ) : ℤ) < 2 ^ 31) hstart
    exact ⟨_, b, m, s, header, dir, save_eq hb hlong hcounts hheader hdir hdirLen, hb, hleast,
      hsmall, hheaderLen, hreadHeader, hdirLen, hfind, rfl⟩
  · next hlong =>
    rw [save, buildDirectory_long (by omega)]
    rfl

/-- **The stream of a workbook is found in its file**, with its padding, when its length fits in
the directory.  Otherwise nothing is written, as `pack` fails. -/
theorem save_right (stream : List UInt8) :
    if stream.length + (padding stream).length < 2 ^ 32 then
      ∃ file, save stream = some file ∧ readDoc file = some (stream ++ padding stream)
    else save stream = none := by
  have hparts := save_parts stream
  split
  · next hlong =>
    rw [if_pos hlong] at hparts
    obtain ⟨file, b, m, s, header, dir, hsave, hfile⟩ := hparts
    refine ⟨file, hsave, ?_⟩
    obtain ⟨hlow, -⟩ := padded_length stream
    have hb := hfile.blocks
    obtain ⟨hmsat, hsat, hreadDir, hbook⟩ := body_found hb (by omega) hfile.small
      hfile.least.enough.sat hfile.dirLength
    have hmsat1 := readIs_leIs (bounds_map (sidAt_bounds hfile.small) (List.range 109))
      (bodyBytes b m s stream dir)
    rw [List.length_map, List.length_range] at hmsat1
    -- the header and the first part of the second table take one sector
    have hbody : body file = bodyBytes b m s stream dir := by
      rw [hfile.bytes, body, ← List.append_assoc]
      refine List.drop_left' ?_
      rw [List.length_append, hfile.headerLength, length_leIs, List.length_map, List.length_range]
    have hheader := hfile.readsHeader _ _ hmsat1
    rw [← hfile.bytes] at hheader
    have hfound := hfile.finds []
    rw [List.append_nil] at hfound
    rw [readDoc, hheader, Option.bind_eq_bind, Option.bind_some]
    dsimp only
    rw [hbody, hmsat, Option.bind_eq_bind, Option.bind_some,
      satSect_found hfile.least.enough.msat, List.length_range', if_neg (not_not.mpr rfl), hsat,
      Option.bind_some, hreadDir, Option.bind_eq_bind, Option.bind_some, hfile.dirLength]
    rw [show 512 / 128 = 4 from rfl, hfound, Option.bind_eq_bind, Option.bind_some]
    dsimp only
    rw [if_neg (by omega), hbook, Option.bind_some, List.length_append, if_neg (by omega),
      ← List.length_append, List.take_length]
  · next hlong =>
    rwa [if_neg hlong] at hparts

/-- **A file has as few sectors as it can**: those of the stream, one of the directory, and the
least numbers of sectors of the two tables. -/
theorem save_least (stream : List UInt8) : ∃ s m,
    Least ((stream.length + (padding stream).length) / 512 + 1) s m ∧
      (save stream).map List.length =
        if stream.length + (padding stream).length < 2 ^ 32 then
          some (stream.length + (padding stream).length + 512 * (m + s + 2))
        else none := by
  have hparts := save_parts stream
  split at hparts
  · next hlong =>
    obtain ⟨file, b, m, s, header, dir, hsave, hfile⟩ := hparts
    have hb := hfile.blocks
    have hblocks : (stream.length + (padding stream).length) / 512 = b := by omega
    refine ⟨s, m, hblocks ▸ hfile.least, ?_⟩
    rw [if_pos hlong, hsave, Option.map_some, Option.some_inj, hfile.bytes]
    simp only [bodyBytes, List.length_append, length_leIs, List.length_map, List.length_range,
      hfile.headerLength, hfile.dirLength]
    omega
  · next hlong =>
    refine ⟨_, _, satCounts_least _, ?_⟩
    rw [if_neg hlong, hparts, Option.map_none]

end LinuxNote.Xls
