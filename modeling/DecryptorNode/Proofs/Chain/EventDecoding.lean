import DecryptorNode.Chain.ContractReader
import DecryptorNode.Chain.Event
import DecryptorNode.Proofs.Chain.StandardEncoding

/-! What a log is read as. Its address and first topic announce the event, and the data only fill
it in: they cannot make it another event, and what was announced and does not read is an error. What
was written in the standard encoding reads back, whatever bytes follow. -/
namespace DecryptorNode.Chain

namespace EventShape

/-- The declaration whose digest announces an event. -/
def declaration : EventShape → String
  | .keyperConfig => "NewConfig(uint64,uint64,uint64)"
  | .decryptorConfig => "NewConfig(uint64,uint64)"
  | .registered => "Registered(address,bytes)"

def signature : EventShape → Topic
  | .keyperConfig => Signature.keyperConfig
  | .decryptorConfig => Signature.decryptorConfig
  | .registered => Signature.registered

def kind : EventShape → String
  | .keyperConfig => "keypers_config"
  | .decryptorConfig => "decryptors_config"
  | .registered => "registered"

/-- The bytes that stand before all content that the head points to. -/
def headBytes : EventShape → Nat
  | .keyperConfig => 96
  | .decryptorConfig => 64
  | .registered => 64

theorem signature_digest (shape : EventShape) :
    shape.signature.bytes = Keccak.digest (Bytes.ofString shape.declaration) := by
  cases shape <;> decide +kernel

variable {shape : EventShape} {address : Address} {data : Bytes} {event : ChainEvent}

private theorem kind_of_read (read : shape.read? address data = some event) :
    event.kind = shape.kind := by
  cases shape <;> simp only [read?, Option.bind_eq_bind, Option.bind_eq_some_iff] at read
  · obtain ⟨activation, -, index, -, threshold, -, ⟨⟩⟩ := read
    rfl
  · obtain ⟨activation, -, index, -, ⟨⟩⟩ := read
    rfl
  · obtain ⟨account, -, content, -, ⟨⟩⟩ := read
    rfl

/-- Without its last head word an event does not read. -/
theorem read?_of_short (short : data.length < shape.headBytes) :
    shape.read? address data = none := by
  cases shape
  · have last : Abi.numberAt? data 64 = none := Abi.numberAt?_of_short short
    simp only [read?, last, Option.bind_eq_bind, Option.bind_none, Option.bind_fun_none]
  · have last : Abi.numberAt? data 32 = none := Abi.numberAt?_of_short short
    simp only [read?, last, Option.bind_eq_bind, Option.bind_none, Option.bind_fun_none]
  · have last : Abi.bytesAt? data 32 = none := Abi.bytesAt?_of_short short
    simp only [read?, last, Option.bind_eq_bind, Option.bind_none, Option.bind_fun_none]

end EventShape

section Encoding
open Abi (encodeNumber encodeAddress encodeBytes)

def KeyperConfig.encoding (config : KeyperConfig) : Bytes :=
  encodeNumber config.activation ++ encodeNumber config.index ++ encodeNumber config.threshold

def DecryptorConfig.encoding (config : DecryptorConfig) : Bytes :=
  encodeNumber config.activation ++ encodeNumber config.index

/-- The account, the place of the credential just after the two head words, and the credential. -/
def Registration.encoding (r : Registration) : Bytes :=
  encodeAddress r.account ++ encodeNumber 64 ++ encodeBytes r.data

/-- The log tells of an event in the standard encoding: the signature of its declaration is the only
topic, the list of its configurations or the registry is the address, and the data begin with its
fields. Numbers, and the length of a credential, are of 64 bits. -/
inductive Log.Tells (contracts : WatchedContracts) (log : Log) : ChainEvent → Prop
  | keyperConfig (config : KeyperConfig) (trailing : Bytes)
      (address : log.address = contracts.keyperConfigs)
      (topics : log.topics = [EventShape.keyperConfig.signature])
      (data : log.data = config.encoding ++ trailing)
      (activation : config.activation ≤ maxWord) (index : config.index ≤ maxWord)
      (threshold : config.threshold ≤ maxWord) : Tells contracts log (.keyperConfig config)
  | decryptorConfig (config : DecryptorConfig) (trailing : Bytes)
      (address : log.address = contracts.decryptorConfigs)
      (topics : log.topics = [EventShape.decryptorConfig.signature])
      (data : log.data = config.encoding ++ trailing)
      (activation : config.activation ≤ maxWord) (index : config.index ≤ maxWord) :
      Tells contracts log (.decryptorConfig config)
  | registered (r : Registration) (trailing : Bytes)
      (address : log.address = r.registry)
      (topics : log.topics = [EventShape.registered.signature])
      (data : log.data = r.encoding ++ trailing)
      (length : r.data.length ≤ maxWord) : Tells contracts log (.registered r)

private theorem KeyperConfig.read?_encoding (config : KeyperConfig) (address : Address)
    (trailing : Bytes) (activation : config.activation ≤ maxWord) (index : config.index ≤ maxWord)
    (threshold : config.threshold ≤ maxWord) :
    EventShape.keyperConfig.read? address (config.encoding ++ trailing) =
      some (.keyperConfig config) := by
  have two : (encodeNumber config.activation ++ encodeNumber config.index).length = 64 := by
    simp only [List.length_append, Abi.length_encodeNumber, Abi.wordBytes]
  have first : Abi.numberAt? _ 0 = some _ := Abi.numberAt?_encodeNumber []
    (encodeNumber config.index ++ (encodeNumber config.threshold ++ trailing)) rfl activation
  have second : Abi.numberAt? _ 32 = some _ :=
    Abi.numberAt?_encodeNumber (encodeNumber config.activation)
      (encodeNumber config.threshold ++ trailing) (Abi.length_encodeNumber _) index
  have third := Abi.numberAt?_encodeNumber _ trailing two threshold
  rw [List.nil_append] at first
  rw [List.append_assoc] at third
  simp only [EventShape.read?, encoding, List.append_assoc, first, second, third,
    Option.bind_eq_bind, Option.bind_some]
  rfl

private theorem DecryptorConfig.read?_encoding (config : DecryptorConfig) (address : Address)
    (trailing : Bytes) (activation : config.activation ≤ maxWord)
    (index : config.index ≤ maxWord) :
    EventShape.decryptorConfig.read? address (config.encoding ++ trailing) =
      some (.decryptorConfig config) := by
  have first : Abi.numberAt? _ 0 = some _ :=
    Abi.numberAt?_encodeNumber [] (encodeNumber config.index ++ trailing) rfl activation
  have second : Abi.numberAt? _ 32 = some _ :=
    Abi.numberAt?_encodeNumber (encodeNumber config.activation) trailing
      (Abi.length_encodeNumber _) index
  rw [List.nil_append] at first
  simp only [EventShape.read?, encoding, List.append_assoc, first, second, Option.bind_eq_bind,
    Option.bind_some]
  rfl

private theorem Registration.read?_encoding (r : Registration) (trailing : Bytes)
    (length : r.data.length ≤ maxWord) :
    EventShape.registered.read? r.registry (r.encoding ++ trailing) = some (.registered r) := by
  have account : Abi.addressAt? _ 0 = some _ := Abi.addressAt?_encodeAddress []
    (encodeNumber 64 ++ (encodeBytes r.data ++ trailing)) r.account rfl
  have head : (encodeAddress r.account ++ encodeNumber 64).length = 64 := by
    simp only [List.length_append, Abi.length_encodeAddress, Abi.length_encodeNumber,
      Abi.wordBytes]
  have pointed : Abi.sizeAt? ((encodeAddress r.account ++ encodeNumber 64) ++
      (encodeBytes r.data ++ trailing)) 32 =
        some (encodeAddress r.account ++ encodeNumber 64).length := by
    rw [head, List.append_assoc]
    exact Abi.sizeAt?_encodeNumber _ _ (Abi.length_encodeAddress _) (by decide)
  have content := Abi.bytesAt?_encodeBytes pointed length
  rw [List.nil_append] at account
  rw [List.append_assoc] at content
  simp only [EventShape.read?, encoding, List.append_assoc, account, content, Option.bind_eq_bind,
    Option.bind_some]
  rfl

end Encoding

namespace Log
variable {contracts : WatchedContracts} {log : Log} {shape : EventShape} {event : ChainEvent}

/-- The address and the first topic announce an event of a shape. A configuration is announced by
its own list only, a registration from anywhere. -/
def Announces (contracts : WatchedContracts) (log : Log) : EventShape → Prop
  | .keyperConfig => log.address = contracts.keyperConfigs ∧
      log.topics.head? = some EventShape.keyperConfig.signature
  | .decryptorConfig => log.address = contracts.decryptorConfigs ∧
      log.topics.head? = some EventShape.decryptorConfig.signature
  | .registered => log.topics.head? = some EventShape.registered.signature

/-- Two signatures differ, so a log announces one event at most. -/
private theorem select?_eq_some (topic : Topic) (others : List Topic)
    (starts : log.topics = topic :: others) :
    EventShape.select? contracts log.address topic = some shape ↔
      Announces contracts log shape := by
  have keypers_decryptors : Signature.keyperConfig ≠ Signature.decryptorConfig := by decide
  have keypers_registered : Signature.keyperConfig ≠ Signature.registered := by decide
  have decryptors_registered : Signature.decryptorConfig ≠ Signature.registered := by decide
  have head : log.topics.head? = some topic := by rw [starts, List.head?_cons]
  rw [EventShape.select?]
  cases shape <;> simp only [Announces, head, EventShape.signature, Option.some.injEq] <;> grind

/-- What a log is read as, by what it announces. -/
theorem event_of_announces (announced : Announces contracts log shape) :
    log.event contracts = if log.topics.tail = [] then
        (shape.read? log.address log.data).elim (.error log.decodeError) .ok
      else .error log.decodeError := by
  cases starts : log.topics with
  | nil => cases shape <;> simp [Announces, starts] at announced
  | cons topic others =>
    have selected := (select?_eq_some topic others starts).mpr announced
    simp only [event, starts, selected, List.tail_cons]
    cases others <;> cases shape.read? log.address log.data <;> rfl

private theorem event_of_not_announces (silent : ∀ shape, ¬ Announces contracts log shape) :
    log.event contracts = .ok (.unknown log.address log.topics.head?) := by
  cases starts : log.topics with
  | nil => simp only [event, starts, List.head?_nil]
  | cons topic others =>
    have unselected : EventShape.select? contracts log.address topic = none :=
      Option.eq_none_iff_forall_ne_some.mpr fun shape selected =>
        silent shape ((select?_eq_some topic others starts).mp selected)
    simp only [event, starts, unselected, List.head?_cons]

private theorem event_eq_ok (announced : Announces contracts log shape) :
    log.event contracts = .ok event ↔
      log.topics.tail = [] ∧ shape.read? log.address log.data = some event := by
  rw [event_of_announces announced]
  by_cases alone : log.topics.tail = [] <;>
    cases shape.read? log.address log.data <;> simp [alone]

private theorem Tells.announces (told : Tells contracts log event) :
    ∃ shape, Announces contracts log shape ∧ log.topics.tail = [] ∧
      shape.read? log.address log.data = some event := by
  cases told with
  | keyperConfig config trailing address topics data activation index threshold =>
    refine ⟨.keyperConfig, ⟨address, by rw [topics, List.head?_cons]⟩,
      by rw [topics, List.tail_cons], ?_⟩
    rw [data, config.read?_encoding _ _ activation index threshold]
  | decryptorConfig config trailing address topics data activation index =>
    refine ⟨.decryptorConfig, ⟨address, by rw [topics, List.head?_cons]⟩,
      by rw [topics, List.tail_cons], ?_⟩
    rw [data, config.read?_encoding _ _ activation index]
  | registered r trailing address topics data length =>
    refine ⟨.registered, (by rw [topics, List.head?_cons] : _ = _), by rw [topics, List.tail_cons],
      ?_⟩
    rw [data, address, r.read?_encoding _ length]

private theorem event_of_short (announced : Announces contracts log shape)
    (short : log.data.length < shape.headBytes) :
    log.event contracts = .error log.decodeError := by
  rw [event_of_announces announced, EventShape.read?_of_short short]
  exact ite_self _

private theorem kind_of_event (announced : Announces contracts log shape)
    (read : log.event contracts = .ok event) : event.kind = shape.kind :=
  EventShape.kind_of_read ((event_eq_ok announced).mp read).2

/-- The announcement is a matter of the address and the first topic. -/
private theorem announces_congr {log' : Log} (address : log.address = log'.address)
    (topic : log.topics.head? = log'.topics.head?) :
    Announces contracts log shape ↔ Announces contracts log' shape := by
  cases shape <;> simp only [Announces, address, topic]

private theorem event_eq_error {e : ChainError} (failed : log.event contracts = .error e) :
    e = log.decodeError ∧ ∃ shape, Announces contracts log shape := by
  by_cases announced : ∃ shape, Announces contracts log shape
  · refine ⟨?_, announced⟩
    obtain ⟨shape, announced⟩ := announced
    rw [event_of_announces announced] at failed
    split at failed
    · cases read : shape.read? log.address log.data <;> rw [read] at failed <;> cases failed
      rfl
    · exact (Except.error.inj failed).symm
  · rw [event_of_not_announces fun shape h => announced ⟨shape, h⟩] at failed
    cases failed

end Log

namespace SequenceContracts

private theorem reply_encodeAddressList (c : SequenceContracts)
    {answers : Address → Nat → Reply Bytes}
    {set : AddressSet} {index : Nat} {addresses : List Address} {trailing : Bytes}
    (fits : addresses.length ≤ maxWord) (answered : answers (c.address set) index =
      .value (Abi.encodeAddressList addresses ++ trailing)) :
    (c.reader answers set index).reply = .addresses addresses := by
  rw [reader]
  dsimp only
  rw [answered, interpret, Abi.addressListAt?_encodeAddressList addresses trailing fits]

end SequenceContracts

/-- Reading inverts the standard encoding, of events and of address lists, whatever follows it; data
without all head words are an error. An event is of the kind that the address and the first topic
announce: where they announce none it is unknown whatever the data, and an error comes only where
they announce one. -/
theorem event_decoding (contracts : WatchedContracts) :
    (∀ log event, Log.Tells contracts log event → log.event contracts = .ok event) ∧
    (∀ log shape, Log.Announces contracts log shape → log.data.length < shape.headBytes →
      log.event contracts = .error log.decodeError) ∧
    (∀ (c : SequenceContracts) answers set index addresses trailing, addresses.length ≤ maxWord →
      answers (c.address set) index = .value (Abi.encodeAddressList addresses ++ trailing) →
      (c.reader answers set index).reply = .addresses addresses) ∧
    (∀ (log log' : Log) event event', log.address = log'.address →
      log.topics.head? = log'.topics.head? → log.event contracts = .ok event →
      log'.event contracts = .ok event' → event.kind = event'.kind) ∧
    (∀ log shape event, Log.Announces contracts log shape → log.event contracts = .ok event →
      event.kind = shape.kind) ∧
    (∀ log : Log, (∀ shape, ¬ Log.Announces contracts log shape) →
      log.event contracts = .ok (.unknown log.address log.topics.head?)) ∧
    (∀ log e, log.event contracts = .error e →
      e = log.decodeError ∧ ∃ shape, Log.Announces contracts log shape) := by
  refine ⟨?_, fun log shape announced short => Log.event_of_short announced short,
    fun c answers set index addresses trailing fits answered =>
      c.reply_encodeAddressList fits answered, ?_,
    fun log shape event announced read => Log.kind_of_event announced read,
    fun log silent => Log.event_of_not_announces silent,
    fun log e failed => Log.event_eq_error failed⟩
  · intro log event told
    obtain ⟨shape, announced, alone, read⟩ := told.announces
    exact (Log.event_eq_ok announced).mpr ⟨alone, read⟩
  · intro log log' event event' address topic read read'
    by_cases announced : ∃ shape, Log.Announces contracts log shape
    · obtain ⟨shape, announced⟩ := announced
      rw [Log.kind_of_event announced read,
        Log.kind_of_event ((Log.announces_congr address topic).mp announced) read']
    · have silent shape (h : Log.Announces contracts log shape) : False := announced ⟨shape, h⟩
      have silent' shape (h : Log.Announces contracts log' shape) : False :=
        announced ⟨shape, (Log.announces_congr address topic).mpr h⟩
      rw [Log.event_of_not_announces silent] at read
      rw [Log.event_of_not_announces silent'] at read'
      cases read
      cases read'
      rfl

end DecryptorNode.Chain
