import WerkModel.Backend.Text
import WerkModel.Lib.Json

-- What an inference request consists of once its parameters are resolved.
open Std

namespace Inference

inductive OutputModality
  | text
  | image
  | video
  | audio
  | embedding
  deriving DecidableEq

inductive InferenceTask
  | textGeneration | textEmbedding | textReranking | textClassification
  | imageUnderstanding | imageGeneration | imageEditing | imageVariation | imageInpainting
  | imageOutpainting | imageUpscaling
  | videoGeneration | imageToVideo | videoToVideo | videoInpainting | videoExtension
  | videoUpscaling | frameInterpolation
  | audioGeneration | musicGeneration | songContinuation | songVariation
  | textToSpeech | speechToText | speechTranslation
  | audioEventDetection | voiceActivityDetection | speakerIdentification
  | languageIdentification | speechEmotionRecognition
  | audioCaptioning | speakerDiarization | audioClassification | audioUnderstanding
  | audioEmbedding | voiceConversion | stemGeneration | stemSeparation | audioEnhancement
  | audioEditing
  deriving DecidableEq

namespace InferenceTask

def name : InferenceTask → String
  | textGeneration           => "text-generation"
  | textEmbedding            => "text-embedding"
  | textReranking            => "text-reranking"
  | textClassification       => "text-classification"
  | imageUnderstanding       => "image-understanding"
  | imageGeneration          => "image-generation"
  | imageEditing             => "image-editing"
  | imageVariation           => "image-variation"
  | imageInpainting          => "image-inpainting"
  | imageOutpainting         => "image-outpainting"
  | imageUpscaling           => "image-upscaling"
  | videoGeneration          => "video-generation"
  | imageToVideo             => "image-to-video"
  | videoToVideo             => "video-to-video"
  | videoInpainting          => "video-inpainting"
  | videoExtension           => "video-extension"
  | videoUpscaling           => "video-upscaling"
  | frameInterpolation       => "frame-interpolation"
  | audioGeneration          => "audio-generation"
  | musicGeneration          => "music-generation"
  | songContinuation         => "song-continuation"
  | songVariation            => "song-variation"
  | textToSpeech             => "text-to-speech"
  | speechToText             => "speech-to-text"
  | speechTranslation        => "speech-translation"
  | audioEventDetection      => "audio-event-detection"
  | voiceActivityDetection   => "voice-activity-detection"
  | speakerIdentification    => "speaker-identification"
  | languageIdentification   => "language-identification"
  | speechEmotionRecognition => "speech-emotion-recognition"
  | audioCaptioning          => "audio-captioning"
  | speakerDiarization       => "speaker-diarization"
  | audioClassification      => "audio-classification"
  | audioUnderstanding       => "audio-understanding"
  | audioEmbedding           => "audio-embedding"
  | voiceConversion          => "voice-conversion"
  | stemGeneration           => "stem-generation"
  | stemSeparation           => "stem-separation"
  | audioEnhancement         => "audio-enhancement"
  | audioEditing             => "audio-editing"

def outputModality : InferenceTask → OutputModality
  | textGeneration | textReranking | textClassification | imageUnderstanding | speechToText
  | speechTranslation | audioEventDetection | voiceActivityDetection | speakerIdentification
  | languageIdentification | speechEmotionRecognition | audioCaptioning | speakerDiarization
  | audioClassification | audioUnderstanding => .text
  | textEmbedding | audioEmbedding => .embedding
  | imageGeneration | imageEditing | imageVariation | imageInpainting | imageOutpainting
  | imageUpscaling => .image
  | videoGeneration | imageToVideo | videoToVideo | videoInpainting | videoExtension
  | videoUpscaling | frameInterpolation => .video
  | audioGeneration | musicGeneration | songContinuation | songVariation | textToSpeech
  | voiceConversion | stemGeneration | stemSeparation | audioEnhancement | audioEditing => .audio

end InferenceTask

-- Values of parameters. Numbers that are not integers are of the type `φ`.
inductive ParameterValue (φ : Type)
  | null
  | boolean (value : Bool)
  | integer (value : Int)
  | number (value : φ)
  | string (value : String)
  | list (values : List (ParameterValue φ))
  | object (fields : List (String × ParameterValue φ))

namespace ParameterValue

variable {φ : Type}

def asBool : ParameterValue φ → Option Bool
  | boolean value => some value
  | _             => none

def asU64 : ParameterValue φ → Option Nat
  | integer value => if 0 ≤ value then some value.toNat else none
  | _             => none

def asStr : ParameterValue φ → Option String
  | string value => some value
  | _            => none

end ParameterValue

inductive ParameterSource
  | systemDefault
  | taskDefault
  | modelFamilyDefault
  | modelDefault
  | runtimeDefault
  | hardwareProfile
  | userProfile
  | requestOverride
  | backendAdjustment
  deriving DecidableEq

structure ResolvedParameter (φ : Type) where
  value  : ParameterValue φ
  source : ParameterSource

inductive ParameterPolicy
  | strict
  | warn
  | permissive
  deriving DecidableEq

inductive ParameterSupportStatus
  | native
  | translated
  | emulated
  | ignored
  | unsupported
  | modelDependent
  deriving DecidableEq

structure EffectiveInferenceRequest (φ : Type) where
  task               : InferenceTask
  parameters         : ExtTreeMap String (ResolvedParameter φ) compare := ∅
  explicitParameters : ExtTreeSet String compare := ∅
  parameterPolicy    : ParameterPolicy := .strict

namespace EffectiveInferenceRequest

variable {φ : Type} (request : EffectiveInferenceRequest φ) (path : String)

def parameter : Option (ParameterValue φ) :=
  request.parameters[path]?.map ResolvedParameter.value

def boolParameter : Option Bool :=
  (request.parameter path).bind ParameterValue.asBool

def u64Parameter : Option Nat :=
  (request.parameter path).bind ParameterValue.asU64

def stringParameter : Option String :=
  (request.parameter path).bind ParameterValue.asStr

end EffectiveInferenceRequest

inductive RepositoryLayout
  | singleFile
  | gguf
  | transformers
  | diffusers
  | mlx
  | onnxBundle
  | tensorRtEngine
  | custom
  deriving DecidableEq

def RepositoryLayout.debug : RepositoryLayout → String
  | singleFile     => "SingleFile"
  | gguf           => "Gguf"
  | transformers   => "Transformers"
  | diffusers      => "Diffusers"
  | mlx            => "Mlx"
  | onnxBundle     => "OnnxBundle"
  | tensorRtEngine => "TensorRtEngine"
  | custom         => "Custom"

inductive ModelFormat
  | gguf
  | safeTensors
  | pyTorch
  | onnx
  | mlx
  | tensorRt
  | openVino
  | tensorFlow
  | coreMl
  | unknown
  deriving DecidableEq

def ModelFormat.debug : ModelFormat → String
  | gguf        => "Gguf"
  | safeTensors => "SafeTensors"
  | pyTorch     => "PyTorch"
  | onnx        => "Onnx"
  | mlx         => "Mlx"
  | tensorRt    => "TensorRt"
  | openVino    => "OpenVino"
  | tensorFlow  => "TensorFlow"
  | coreMl      => "CoreMl"
  | unknown     => "Unknown"

structure ModelMetadata where
  family               : Option String := none
  repositoryLayout     : RepositoryLayout := .custom
  tasks                : List InferenceTask := []
  generationDefaults   : ExtTreeMap String Json compare := ∅
  parameterConstraints : ExtTreeMap String Json compare := ∅

structure ModelManifest where
  id           : String
  format       : ModelFormat
  architecture : Option String := none
  metadata     : ModelMetadata := {}

def toAsciiLowercase (text : String) : List Char :=
  text.toList.map Char.toLower

def eqIgnoreAsciiCase (text other : String) : Bool :=
  toAsciiLowercase text = toAsciiLowercase other

end Inference
