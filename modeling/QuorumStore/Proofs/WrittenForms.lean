import QuorumStore.Proofs.RecordText

namespace QuorumStore

namespace Json

def Unbroken (text : Bytes) : Prop := ∀ b ∈ text, 0x20 ≤ b

@[simp] theorem unbroken_nil : Unbroken [] := List.forall_mem_nil _

@[simp] theorem unbroken_cons {b : UInt8} {text : Bytes} : Unbroken (b :: text) ↔ 0x20 ≤ b ∧ Unbroken text :=
  List.forall_mem_cons

@[simp] theorem unbroken_append {text text' : Bytes} :
    Unbroken (text ++ text') ↔ Unbroken text ∧ Unbroken text' :=
  List.forall_mem_append

theorem unbroken_escape (b : UInt8) : Unbroken (escape b) := by
  have hall : ∀ n : Fin 256, ∀ c ∈ escape (UInt8.ofFin n), 0x20 ≤ c := by decide +kernel
  simpa [Unbroken] using hall b.toFin

@[simp] theorem unbroken_quote (text : Bytes) : Unbroken (quote text) := by
  have hbody : Unbroken (text.flatMap escape) := by
    intro c hc
    obtain ⟨b, -, hb⟩ := List.mem_flatMap.mp hc
    exact unbroken_escape b c hb
  simp [quote, hbody]

theorem unbroken_ofNat (n : Nat) : Unbroken (ofNat n).render := by
  intro b hb
  rw [ofNat, render] at hb
  have hdigit := isDigit_of_mem_literalOf hb
  simp only [isDigit, Bool.and_eq_true, decide_eq_true_eq] at hdigit
  exact UInt8.le_trans (by decide) hdigit.1

theorem unbroken_renderItems {js : List Json} (hjs : ∀ j ∈ js, Unbroken j.render) :
    Unbroken (renderItems js) := by
  induction js with
  | nil => exact unbroken_nil
  | cons j js ih =>
    obtain ⟨hj, hjs⟩ := List.forall_mem_cons.mp hjs
    simp [renderItems, hj, ih hjs]

theorem unbroken_array {js : List Json} (hjs : ∀ j ∈ js, Unbroken j.render) :
    Unbroken (array js).render := by
  cases js with
  | nil => simp [render]
  | cons j js =>
    obtain ⟨hj, hjs⟩ := List.forall_mem_cons.mp hjs
    simp [render, hj, unbroken_renderItems hjs]

theorem unbroken_renderMembers {ms : List (Bytes × Json)} (hms : ∀ m ∈ ms, Unbroken m.2.render) :
    Unbroken (renderMembers ms) := by
  induction ms with
  | nil => exact unbroken_nil
  | cons m ms ih =>
    obtain ⟨hm, hms⟩ := List.forall_mem_cons.mp hms
    simp [renderMembers, hm, ih hms]

theorem unbroken_object {ms : List (Bytes × Json)} (hms : ∀ m ∈ ms, Unbroken m.2.render) :
    Unbroken (object ms).render := by
  cases ms with
  | nil => simp [render]
  | cons m ms =>
    obtain ⟨hm, hms⟩ := List.forall_mem_cons.mp hms
    simp [render, hm, unbroken_renderMembers hms]

theorem hereditary_unbroken : Hereditary (fun j => Unbroken j.render) where
  string text := by simp [render]
  bool b := by cases b <;> simp [Unbroken, render]
  ofNat := unbroken_ofNat
  array := unbroken_array
  object := unbroken_object

end Json

structure Form (α : Type) where
  toJson : α → Json
  ofJson? : Json → Option α

namespace Form

variable {α : Type}

def write (f : Form α) (a : α) : Bytes := (f.toJson a).render

def read? (f : Form α) (text : Bytes) : Option α := (Json.parse? text).bind f.ofJson?

def rewrite? (f : Form α) (text : Bytes) : Option Bytes := (f.read? text).map f.write

def nodeId : Form NodeId := ⟨.ofText, Json.text?⟩

def vector : Form VersionVector := ⟨VersionVector.toJson, VersionVector.ofJson?⟩

def version : Form Version := ⟨Version.toJson, Version.ofJson?⟩

def record : Form Record := ⟨Record.toJson, Record.ofJson?⟩

structure Settled (f : Form α) : Prop where
  reads : ∀ a, f.read? (f.write a) = some a
  unbroken : ∀ a, ∀ b ∈ f.write a, 0x20 ≤ b
  rewrites : ∀ text a, f.read? text = some a →
    ∃ text', f.rewrite? text = some text' ∧ f.read? text' = some a ∧ f.rewrite? text' = some text'
  fixed : ∀ text, f.rewrite? text = some text ↔ ∃ a, text = f.write a

theorem rewrite?_eq {f : Form α} {text : Bytes} {a : α} (h : f.read? text = some a) :
    f.rewrite? text = some (f.write a) := by rw [rewrite?, h, Option.map_some]

theorem settled {f : Form α} (hmade : ∀ {P : Json → Prop}, Json.Hereditary P → ∀ a, P (f.toJson a))
    (hback : ∀ a, f.ofJson? (f.toJson a) = some a) : f.Settled := by
  have hreads : ∀ a, f.read? (f.write a) = some a := by
    intro a
    rw [read?, write, Json.parse?_render (hmade Json.hereditary_legible a), Option.bind_some, hback]
  refine ⟨hreads, hmade Json.hereditary_unbroken, fun text a h => ?_, fun text => ⟨fun h => ?_, ?_⟩⟩
  · exact ⟨f.write a, rewrite?_eq h, hreads a, rewrite?_eq (hreads a)⟩
  · obtain ⟨a, -, rfl⟩ := Option.map_eq_some_iff.mp h
    exact ⟨a, rfl⟩
  · rintro ⟨a, rfl⟩
    exact rewrite?_eq (hreads a)

end Form

theorem written_forms_settle :
    Form.record.write = Record.encode ∧ Form.record.read? = Record.decode? ∧
      Form.record.Settled ∧ Form.version.Settled ∧ Form.vector.Settled ∧ Form.nodeId.Settled := by
  refine ⟨rfl, rfl, Form.settled Record.hereditary_toJson Record.ofJson?_toJson,
    Form.settled Version.hereditary_toJson Version.ofJson?_toJson,
    Form.settled VersionVector.hereditary_toJson VersionVector.ofJson?_toJson,
    Form.settled (fun hP n => hP.string (utf8 n)) fun n => text?_utf8 n⟩

example : Form.vector.rewrite? (utf8 " \x7b\"entries\": \x7b\"b\":0, \"a\":1, \"a\":2\x7d\x7d") =
    some (utf8 "\x7b\"entries\":\x7b\"a\":2,\"b\":0\x7d\x7d") := by decide +kernel

end QuorumStore
