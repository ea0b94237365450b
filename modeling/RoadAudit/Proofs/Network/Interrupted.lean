import RoadAudit.Proofs.Network.Store

/-! # Storing that stops early

The files of a network are written one after the other, and each grows byte by byte. Wherever this
stops, the folder does not give another network: the way ids are written last, and the beginning of
their file is not the file of a table. -/

namespace RoadAudit

/-- What is seen of a folder of bytes, one thing after the other, while files are written. -/
inductive FileStep where
  /-- A file begins, empty. -/
  | create (name : String)
  | append (name : String) (byte : UInt8)
  | move (old new : String)

namespace FileStep

def run? (f : RoadNetwork.Storage) : FileStep → Option RoadNetwork.Storage
  | create name => f.write? name []
  | append name byte => do
    let content ← f.read? name
    f.write? name (content ++ [byte])
  | move old new => f.rename? old new

def names : FileStep → List String
  | create name => [name]
  | append name _ => [name]
  | move old new => [old, new]

/-- The steps that write a file from its first byte to its last. -/
def writing (name : String) (bytes : List UInt8) : List FileStep :=
  create name :: bytes.map (append name)

variable {f g : RoadNetwork.Storage} {name other : String} {bytes : List UInt8}

theorem foldlM_append (written bytes : List UInt8) :
    (bytes.map (append name)).foldlM run? (f.put name (.file written)) =
      some (f.put name (.file (written ++ bytes))) := by
  induction bytes generalizing written with
  | nil => simp
  | cons byte bytes ih =>
    have hstep : run? (f.put name (.file written)) (append name byte) =
        some (f.put name (.file (written ++ [byte]))) := by
      simp only [run?, Folder.read?_put_self, Option.bind_eq_bind, Option.bind_some]
      rw [Folder.write?_eq_some_iff]
      exact ⟨Folder.isFolder_put_file_self, Folder.put_put.symm⟩
    simp only [List.map_cons, List.foldlM_cons, hstep, Option.bind_eq_bind, Option.bind_some]
    rw [ih, List.append_assoc]
    rfl

theorem foldlM_writing : (writing name bytes).foldlM run? f = f.write? name bytes := by
  rw [writing, List.foldlM_cons]
  simp only [run?, Folder.write?]
  split
  case isTrue => rfl
  case isFalse => exact foldlM_append [] bytes

theorem take_writing (k : Nat) :
    (writing name bytes).take (k + 1) = writing name (bytes.take k) := by
  rw [writing, writing, List.take_succ_cons, List.map_take]

theorem names_of_mem_writing {s : FileStep} (h : s ∈ writing name bytes) : s.names = [name] := by
  rcases List.mem_cons.mp h with rfl | h
  · rfl
  · obtain ⟨byte, -, rfl⟩ := List.mem_map.mp h
    rfl

theorem read?_of_run? {s : FileStep} (h : run? f s = some g) (hother : other ∉ s.names) :
    g.read? other = f.read? other := by
  cases s with
  | create name =>
    obtain ⟨-, rfl⟩ := Folder.write?_eq_some_iff.mp h
    exact Folder.read?_put_of_ne (Ne.symm (List.ne_of_not_mem_cons hother))
  | append name byte =>
    obtain ⟨content, -, h⟩ := Option.bind_eq_some_iff.mp h
    obtain ⟨-, rfl⟩ := Folder.write?_eq_some_iff.mp h
    exact Folder.read?_put_of_ne (Ne.symm (List.ne_of_not_mem_cons hother))
  | move old new =>
    obtain ⟨hold, hnew⟩ := List.ne_and_not_mem_of_not_mem_cons hother
    cases hcontent : f.read? old with
    | none => simp [run?, Folder.rename?, hcontent] at h
    | some content =>
      obtain ⟨-, rfl⟩ := (Folder.rename?_eq_some_iff hcontent).mp h
      rw [Folder.read?_put_of_ne (Ne.symm (List.ne_of_not_mem_cons hnew)),
        Folder.read?_remove_of_ne (Ne.symm hold)]

theorem read?_of_foldlM {steps : List FileStep} (h : steps.foldlM run? f = some g)
    (hother : ∀ s ∈ steps, other ∉ s.names) : g.read? other = f.read? other := by
  induction steps generalizing f with
  | nil =>
    cases h
    rfl
  | cons s steps ih =>
    rw [List.foldlM_cons] at h
    obtain ⟨next, hnext, h⟩ := Option.bind_eq_some_iff.mp h
    rw [ih h fun s hs => hother s (List.mem_cons_of_mem _ hs),
      read?_of_run? hnext (hother s List.mem_cons_self)]

end FileStep

namespace RoadNetwork

open FileStep

variable {n : RoadNetwork} {f g : Storage}

/-- What is done before the way ids are begun. -/
def earlySteps (n : RoadNetwork) : List FileStep :=
  writing partialGraphFile (Snapshot.encode n.graph n.barriers.lines) ++
    (move partialGraphFile graphFile :: writing nodeIdFile n.nodeIds.encode)

/-- All that is done to store a network. -/
def storeSteps (n : RoadNetwork) : List FileStep :=
  n.earlySteps ++ writing wayIdFile n.wayIds.encode

theorem foldlM_storeSteps : n.storeSteps.foldlM run? f = store? f n := by
  simp [storeSteps, earlySteps, store?, List.foldlM_append, foldlM_writing, run?]

theorem wayIdFile_not_mem_names {s : FileStep} (h : s ∈ n.earlySteps) : wayIdFile ∉ s.names := by
  rcases List.mem_append.mp h with h | h
  · rw [names_of_mem_writing h]
    decide
  · rcases List.mem_cons.mp h with rfl | h
    · decide
    · rw [names_of_mem_writing h]
      decide

theorem isStored_of_wayIds_missing (h : f.read? wayIdFile = none) : isStored f = false := by
  have hmissing : f.isFile wayIdFile = false := by rw [Folder.isFile, h]; rfl
  rw [isStored, hmissing, Bool.and_false]

theorem exists_error_of_wayIds {bytes : List UInt8} {e : IdTableError}
    (h : f.read? wayIdFile = some bytes) (he : IdTable.decode bytes = .error e) :
    ∃ e, load f = .error e := by
  have hway : loadTable f wayIdFile = .error (.badTable e) := by
    rw [loadTable, h]
    simp only [he]
    rfl
  unfold load
  cases loadGraph f with
  | error e => exact ⟨e, rfl⟩
  | ok graph =>
    cases loadTable f nodeIdFile with
    | error e => exact ⟨e, rfl⟩
    | ok nodeIds => exact ⟨_, by rw [hway]; rfl⟩

/-- Storing a network is the steps here. Where they stop, in a folder that had no way ids when
they began, the folder is not taken for a stored network, or loading fails, or they have all been
taken and what is loaded is the network that was being stored. -/
theorem load_interrupted (n : RoadNetwork) (hn : n.Storable) (f : Storage)
    (hnew : f.isFile wayIdFile = false) :
    n.storeSteps.foldlM run? f = store? f n ∧
    ∀ k g, (n.storeSteps.take k).foldlM run? f = some g →
      isStored g = false ∨ (∃ e, load g = .error e) ∨
        (store? f n = some g ∧ load g = .ok n.unsigned) := by
  refine ⟨foldlM_storeSteps, fun k g hg => ?_⟩
  rw [storeSteps, List.take_append, List.foldlM_append] at hg
  obtain ⟨early, hearly, hg⟩ := Option.bind_eq_some_iff.mp hg
  have hmissing : early.read? wayIdFile = none := by
    rw [read?_of_foldlM hearly fun s hs => wayIdFile_not_mem_names (List.mem_of_mem_take hs)]
    exact Option.isNone_iff_eq_none.mp (Option.isSome_eq_false_iff.mp hnew)
  -- The way ids have not been begun, or so many of their bytes have been written.
  cases hbytes : k - n.earlySteps.length with
  | zero =>
    rw [hbytes, List.take_zero] at hg
    cases hg
    exact .inl (isStored_of_wayIds_missing hmissing)
  | succ j =>
    rw [hbytes, take_writing, foldlM_writing] at hg
    by_cases hall : n.wayIds.encode.take j = n.wayIds.encode
    · have hstored : store? f n = some g := by
        rw [List.take_of_length_le (by omega)] at hearly
        rw [← foldlM_storeSteps, storeSteps, List.foldlM_append, hearly, ← hg, hall]
        exact foldlM_writing
      exact .inr (.inr ⟨hstored, load_of_store? hn hstored⟩)
    · obtain ⟨e, he⟩ := IdTable.exists_error_of_isPrefix hn.wayIds_lt (List.take_prefix j _) hall
      obtain ⟨-, rfl⟩ := Folder.write?_eq_some_iff.mp hg
      exact .inr (.inl (exists_error_of_wayIds Folder.read?_put_self he))

/-- The last byte of the way ids is still missing. -/
theorem load_interrupted_sample : sample.Storable ∧ (Folder.empty : Storage).isFile wayIdFile = false ∧
    ∃ g, (sample.storeSteps.take (sample.storeSteps.length - 1)).foldlM run? Folder.empty = some g ∧
      (isStored g = false ∨ (∃ e, load g = .error e) ∨
        (store? Folder.empty sample = some g ∧ load g = .ok sample.unsigned)) := by
  have hroom : sample.Storable :=
    ⟨⟨by decide, by decide, by decide, by decide⟩, by decide, by decide⟩
  obtain ⟨hsteps, hstop⟩ := load_interrupted sample hroom Folder.empty rfl
  obtain ⟨stored, hstored⟩ := exists_store? (f := Folder.empty) sample (by decide)
  rw [← hsteps, ← List.take_append_drop (sample.storeSteps.length - 1) sample.storeSteps,
    List.foldlM_append] at hstored
  obtain ⟨g, hg, -⟩ := Option.bind_eq_some_iff.mp hstored
  exact ⟨hroom, rfl, g, hg, hstop _ g hg⟩

end RoadNetwork
end RoadAudit
