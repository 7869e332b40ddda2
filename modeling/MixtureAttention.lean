import MixtureAttention.Registry.Penalty
import MixtureAttention.Proofs.Layer.BatchEntries
import MixtureAttention.Proofs.Layer.Decoding
import MixtureAttention.Proofs.Layer.Isolation
import MixtureAttention.Proofs.Layer.Memoless
import MixtureAttention.Proofs.Layer.Neighbours
import MixtureAttention.Proofs.Layer.Recut
import MixtureAttention.Proofs.Layer.SettingsChange
import MixtureAttention.Proofs.Layer.Validation
import MixtureAttention.Proofs.Real.Gradient
import MixtureAttention.Proofs.Real.Subdistribution
import MixtureAttention.Proofs.Registry.Edits
import MixtureAttention.Proofs.Layer.BatchHistory
import MixtureAttention.Proofs.Layer.ForwardRefusals
import MixtureAttention.Proofs.Layer.GradientRefusals
import MixtureAttention.Proofs.Layer.Listing
import MixtureAttention.Proofs.Machine.Evaluation
import MixtureAttention.Proofs.Tensor.BatchedProduct
import MixtureAttention.Proofs.Layer.Allocation
import MixtureAttention.Proofs.Layer.Centres
import MixtureAttention.Proofs.Exact.Translation
import MixtureAttention.Proofs.Tensor.Fibres
import MixtureAttention.Proofs.Tensor.Transposition
import MixtureAttention.Proofs.Flat.Ranges
import MixtureAttention.Proofs.Flat.Results
import MixtureAttention.Proofs.Tensor.Lenses
import MixtureAttention.Proofs.Real.Activations
import MixtureAttention.Proofs.Exact.Softmax
import MixtureAttention.Proofs.Exact.Penalties
import MixtureAttention.Proofs.Tensor.Encoding
import MixtureAttention.Proofs.Tensor.Joins
import MixtureAttention.Proofs.Layer.Draws
import MixtureAttention.Proofs.Layer.Loading
import MixtureAttention.Proofs.Tensor.Assertions
import MixtureAttention.Proofs.Layer.Overruns
import MixtureAttention.Proofs.Layer.Assertions
